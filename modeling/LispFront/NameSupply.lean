import LispFront.Form.Basic

/-! One counter numbers all generated names, whatever their stem, so that two names drawn without a
restart in between never have the same number. The supply keeps a record of what it has handed out,
and for what. -/

namespace LispFront

/-- What a name is drawn for. -/
inductive Draw where
  /-- An intermediate value. -/
  | temp
  /-- A binding of this name. -/
  | shadow (base : String)
  /-- A host function that asks for this stem. -/
  | asked (stem : String)
  deriving DecidableEq, Repr

/-- The counter has no bound. One of 64 bits gives the same names up to the draw that exhausts
it. -/
structure NameSupply where
  count : Nat := 0
  /-- Everything handed out since the last restart, the latest first. -/
  drawn : List (Draw × Symbol) := []
  deriving Repr

/-- The stem of names that stand for intermediate values. -/
def NameSupply.tempStem : String := "__tmp"

def Draw.stem : Draw → String
  | .temp => NameSupply.tempStem
  | .shadow stem | .asked stem => stem

namespace NameSupply

/-- The name with a stem and a number. -/
def numbered (stem : String) (number : Nat) : Symbol :=
  .plain (stem ++ "_" ++ toString number)

/-- Hands out the next name and notes it. -/
def issue (draw : Draw) (supply : NameSupply) : Symbol × NameSupply :=
  let symbol := numbered draw.stem (supply.count + 1)
  (symbol, { count := supply.count + 1, drawn := (draw, symbol) :: supply.drawn })

/-- The next name for the host. -/
def next (stem : String) : NameSupply → Symbol × NameSupply := issue (.asked stem)

def restart : NameSupply := {}

end NameSupply

end LispFront
