import LispFront.Decimal.Shortest

/-! A number is its bit pattern. The order is total: all patterns that are not a number are equal
and come last, and the two zeros are equal. -/

namespace LispFront

structure Binary64 where
  bits : UInt64
  deriving DecidableEq, Repr

namespace Binary64

def negative (x : Binary64) : Bool := Nat.pow 2 63 ≤ x.bits.toNat

/-- The pattern without its sign. -/
def magnitude (x : Binary64) : Nat := x.bits.toNat % Nat.pow 2 63

/-- The pattern of an infinite number without its sign. -/
def infinite : Nat := 0x7ff * Nat.pow 2 52

def isNaN (x : Binary64) : Bool := infinite < x.magnitude

/-- One pattern stands for all that are not a number. -/
def canonical (x : Binary64) : Binary64 :=
  if x.isNaN then ⟨0x7ff8000000000000⟩ else x

/-- The place of a number in the order. -/
def rank (x : Binary64) : Int :=
  if x.isNaN then Int.pow 2 63 else if x.negative then -x.magnitude else x.magnitude

def cmp (x y : Binary64) : Ordering := compare x.rank y.rank

/-- The number and its rounding interval, in quarters of its last binary place.
Below a power of two the neighbour is only half as far away. -/
def target (x : Binary64) : Decimal.Target :=
  let exponent := x.magnitude / Nat.pow 2 52
  let fraction := x.magnitude % Nat.pow 2 52
  let significand := if exponent = 0 then fraction else Nat.pow 2 52 + fraction
  let place := max exponent 1
  let scale := Nat.pow 2 (place - 1077)
  { low := (4 * significand - if fraction = 0 ∧ 1 < exponent then 1 else 2) * scale
    value := 4 * significand * scale
    high := (4 * significand + 2) * scale
    unit := Nat.pow 2 (1077 - place)
    closed := significand % 2 = 0 }

def zeros (n : Nat) : String := String.ofList (List.replicate n '0')

/-- Positional from `0.0001` up to `10 ^ 16`, with at least one digit after the
point; a power of ten behind `e` otherwise. -/
def layout (s : Decimal.Scaled) : String :=
  let digits := Nat.toDigits 10 s.digits
  let point : Int := digits.length + s.exponent
  let upTo (n : Nat) := String.ofList (digits.take n)
  let dropping (n : Nat) := String.ofList (digits.drop n)
  if -4 < point ∧ point ≤ 16 then
    if point ≤ 0 then "0." ++ zeros (-point).toNat ++ dropping 0
    else if s.exponent ≥ 0 then dropping 0 ++ zeros s.exponent.toNat ++ ".0"
    else upTo point.toNat ++ "." ++ dropping point.toNat
  else
    let tail := if digits.length ≤ 1 then "" else "." ++ dropping 1
    upTo 1 ++ tail ++ "e" ++ toString (point - 1)

/-- The fewest digits that read back. -/
def text (x : Binary64) : String :=
  if x.isNaN then "NaN"
  else
    let sign := if x.negative then "-" else ""
    if x.magnitude = infinite then sign ++ "inf"
    else if x.magnitude = 0 then sign ++ "0.0"
    else sign ++ layout x.target.shortest

end Binary64

end LispFront
