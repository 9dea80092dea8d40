import LispFront.Pattern.Basic

/-! A parameter list holds patterns, and `&` in front of the last one when it takes all further
arguments. Lowering leaves one plain symbol per parameter and the bindings of the patterns that were
none. -/

namespace LispFront

structure Parameters where
  symbols : List Symbol
  variadic : Bool
  /-- Patterns and the symbols they are bound to, alternating. -/
  bindings : List Form

namespace Parameters

def isMark (form : Form) : Bool := form.isNamed Pattern.restMark

def nameAll : List Form → NameM (List Symbol × List Form)
  | [] => pure ([], [])
  | pattern :: rest => do
    let (symbol, here) ← Pattern.nameFor pattern
    let (symbols, there) ← nameAll rest
    pure (symbol :: symbols, here ++ there)

/-- The parameter behind the mark. Without one, the arguments still get a name;
further marks count for nothing. -/
def nameRest (items : List Form) (span : Option Span) : NameM (Symbol × List Form) :=
  match items.filter fun item => !isMark item with
  | [] => do
    let temp ← NameSupply.drawTemp span
    pure (temp, [])
  | [pattern] => Pattern.nameFor pattern
  | pattern :: extra :: _ => do
    let _ ← Pattern.nameFor pattern
    throw (.atForm .crowdedRest extra)

def lower (items : List Form) (span : Option Span) : NameM Parameters := do
  let (symbols, bindings) ← nameAll (items.takeWhile fun item => !isMark item)
  match items.dropWhile fun item => !isMark item with
  | [] => pure { symbols, variadic := false, bindings }
  | _ :: behind =>
    let (rest, restBindings) ← nameRest behind span
    pure {
      symbols := symbols ++ [rest]
      variadic := true
      bindings := bindings ++ restBindings }

end Parameters

end LispFront
