/-! The fewest decimal digits that still single out one number among its neighbours. The numbers
that read back as it fill an interval around it. Grids of 1, 2, … digits are tried in turn: the
first with a point in the interval wins, of two points the nearer, the upper on a tie. -/

namespace LispFront.Decimal

/-- A positive number `value / unit` with the interval of numbers that read back
as it. The ends belong to the interval when `closed`. -/
structure Target where
  low : Nat
  value : Nat
  high : Nat
  unit : Nat
  closed : Bool

/-- The number `digits * 10 ^ exponent`. -/
structure Scaled where
  digits : Nat
  exponent : Int
  deriving DecidableEq, Repr

/-- The position of the first digit: the `e` with `10 ^ (e - 1) ≤ value / unit < 10 ^ e`. -/
def Target.magnitude (t : Target) : Int :=
  if t.unit ≤ t.value then
    (Nat.toDigits 10 (t.value / t.unit)).length
  else
    match (List.range 400).find? fun j => t.unit ≤ t.value * Nat.pow 10 (j + 1) with
    | some j => -(j : Int)
    | none => -400

/-- The grid point that stands for the number on the grid of step `10 ^ exponent`. -/
def Target.onGrid (t : Target) (exponent : Int) : Option Nat :=
  let up := Nat.pow 10 (-exponent).toNat
  let step := t.unit * Nat.pow 10 exponent.toNat
  let lower := t.value * up / step
  let inside (point : Nat) : Bool :=
    if t.closed then t.low * up ≤ point * step && point * step ≤ t.high * up
    else t.low * up < point * step && point * step < t.high * up
  let below := t.value * up - lower * step
  let above := (lower + 1) * step - t.value * up
  match inside lower, inside (lower + 1) with
  | true, true => some (if below < above then lower else lower + 1)
  | true, false => some lower
  | false, true => some (lower + 1)
  | false, false => none

/-- Drops trailing zeros; `fuel` bounds their number. -/
def Scaled.trim : Nat → Scaled → Scaled
  | 0, s => s
  | fuel + 1, s =>
    if s.digits ≠ 0 ∧ s.digits % 10 = 0 then trim fuel ⟨s.digits / 10, s.exponent + 1⟩ else s

def Target.search (t : Target) (magnitude : Int) : Nat → Nat → Scaled
  | 0, _ => ⟨t.value / t.unit, 0⟩
  | tries + 1, places =>
    let exponent := magnitude - places
    match t.onGrid exponent with
    | some point => Scaled.trim 20 ⟨point, exponent⟩
    | none => t.search magnitude tries (places + 1)

/-- Seventeen digits tell any two neighbours apart. -/
def Target.shortest (t : Target) : Scaled :=
  t.search t.magnitude 17 1

end LispFront.Decimal
