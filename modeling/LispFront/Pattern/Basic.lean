import LispFront.Fault
import LispFront.NameSupply

/-! A pattern is a plain symbol, a vector of patterns taken by position, or a map from keys to
patterns. Lowering turns it into bindings of plain symbols: one for the whole value, then one for
each part, taken with the accessors of the core namespace. In a vector, `&` puts what is left under
the next pattern, and `_` takes a place and binds nothing. -/

namespace LispFront

/-- Drawing fresh names, with the possibility to fail. -/
abbrev NameM := ExceptT AnalysisError (StateM NameSupply)

def NameSupply.draw (draw : Draw) : NameM Symbol :=
  modifyGet fun supply => supply.issue draw

/-- A fresh name for an intermediate value, located where it is needed. -/
def NameSupply.drawTemp (span : Option Span) : NameM Symbol := do
  let symbol ← draw .temp
  pure { symbol with span }

namespace Pattern

def restMark : String := "&"

def ignoreMark : String := "_"

/-- Binds as it stands. -/
def isSimple (pattern : Form) : Bool := pattern.plainSymbol?.isSome

/-- A call of a core accessor. -/
def accessor (core base : String) (args : List Form) (span : Option Span) : Form :=
  .list (.symbol (.qualified core base) span [] :: args) span []

def element (core : String) (whole : Symbol) (key : Form) (span : Option Span) : Form :=
  accessor core "get" [whole.form, key] span

def remainder (core : String) (whole : Symbol) (index : Nat) (span : Option Span) : Form :=
  accessor core "drop" [.int index, whole.form] span

/-- An ignored place binds nothing. -/
def unlessIgnored (pattern : Form) (bindings : NameM (List (Symbol × Form))) :
    NameM (List (Symbol × Form)) :=
  if pattern.isNamed ignoreMark then pure [] else bindings

mutual
def lower (core : String) : Form → Form → NameM (List (Symbol × Form))
  | .symbol name span metadata, value =>
    if name.isQualified then
      throw { fault := .notDestructurable "symbol", span }
    else
      pure [({ name, span, metadata }, value)]
  | .vector items span _, value => do
    let whole ← NameSupply.drawTemp span
    let parts ← lowerItems core whole span 0 items
    pure ((whole, value) :: parts)
  | .map entries span _, value => do
    let whole ← NameSupply.drawTemp span
    let parts ← lowerEntries core whole span entries
    pure ((whole, value) :: parts)
  | pattern, _ => throw (.atForm (.notDestructurable pattern.kindName) pattern)

def lowerItems (core : String) (whole : Symbol) (span : Option Span) (index : Nat) :
    List Form → NameM (List (Symbol × Form))
  | [] => pure []
  | item :: rest =>
    if item.isNamed restMark then
      lowerRest core whole span index rest
    else do
      let here ← unlessIgnored item (lower core item (element core whole (.int index) span))
      let there ← lowerItems core whole span (index + 1) rest
      pure (here ++ there)

/-- What stands behind the mark. -/
def lowerRest (core : String) (whole : Symbol) (span : Option Span) (index : Nat) :
    List Form → NameM (List (Symbol × Form))
  | [] => pure []
  | [pattern] => unlessIgnored pattern (lower core pattern (remainder core whole index span))
  | _ :: _ :: _ => throw { fault := .crowdedRest, span }

def lowerEntries (core : String) (whole : Symbol) (span : Option Span) :
    List (Form × Form) → NameM (List (Symbol × Form))
  | [] => pure []
  | (key, pattern) :: rest => do
    let here ← unlessIgnored pattern (lower core pattern (element core whole key span))
    let there ← lowerEntries core whole span rest
    pure (here ++ there)
end

def lowerPairs (core : String) : List (Form × Form) → NameM (List (Symbol × Form))
  | [] => pure []
  | (pattern, value) :: rest => do
    let here ← lower core pattern value
    let there ← lowerPairs core rest
    pure (here ++ there)

/-- A plain symbol stands for itself. Any other pattern gets a fresh name and a
binding of the pattern to that name. -/
def nameFor (pattern : Form) : NameM (Symbol × List Form) :=
  match pattern.plainSymbol? with
  | some symbol => pure (symbol, [])
  | none => do
    let temp ← NameSupply.drawTemp pattern.span
    pure (temp, [pattern, temp.form])

/-- The same for a place that need not be there. -/
def nameForOption : Option Form → NameM (Option Symbol × List Form)
  | some pattern => do
    let (symbol, bindings) ← nameFor pattern
    pure (some symbol, bindings)
  | none => pure (none, [])

/-- A `let` form around a body. -/
def letForm (bindings body : List Form) (span : Option Span) : Form :=
  .list (.plainSymbol "let" :: .vector bindings none [] :: body) span []

/-- The body with the bindings of its patterns in front, if there are any. -/
def bindAround (bindings body : List Form) (span : Option Span) : List Form :=
  if bindings.isEmpty then body else [letForm bindings body span]

end Pattern

end LispFront
