import LispFront.Form.Basic
import LispFront.Ordered

/-! A scope is what a position in the program knows about its surroundings: how its value is used,
which names are local, under which generated name each of them goes, which function or loop a
`recur` would restart, and what encloses it. Scopes are values; a derived scope leaves the one it
came from as it was. -/

namespace LispFront

/-- How the value of a position is used. -/
inductive Context where
  /-- An enclosing expression needs it. -/
  | expression
  /-- It is dropped. -/
  | statement
  /-- It is the result of the enclosing function or block. -/
  | result
  deriving DecidableEq, Repr

def Context.text : Context → String
  | .expression => "expression"
  | .statement => "statement"
  | .result => "return"

/-- What a `recur` restarts: the parameters of one function or loop. Each has a
number of its own; whether a `recur` reaches it is recorded under that number. -/
structure Frame where
  id : Nat
  params : List Symbol
  deriving Repr

structure Scope where
  context : Context := .statement
  /-- Local names in order. -/
  locals : List Symbol := []
  /-- Generated names that stand for local ones. -/
  shadows : List (Symbol × Symbol) := []
  /-- The frame a `recur` here restarts, if it may stand here. -/
  frame : Option Frame := none
  /-- The definition or binding that the value is for. -/
  label : String := ""
  defAllowed : Bool := true
  deriving Repr

namespace Scope

/-- The scope of a top-level form. -/
def top : Scope := {}

def isLocal (scope : Scope) (symbol : Symbol) : Bool :=
  !symbol.isQualified && Ordered.hasMember Symbol.cmp symbol scope.locals

def shadow? (scope : Scope) (symbol : Symbol) : Option Symbol :=
  Ordered.find? Symbol.cmp symbol scope.shadows

def withContext (context : Context) (scope : Scope) : Scope := { scope with context }

/-- A block used as an expression becomes a function of its own and returns its value. -/
def returning (scope : Scope) : Scope :=
  match scope.context with
  | .expression => scope.withContext .result
  | _ => scope

def bind (names : List Symbol) (scope : Scope) : Scope :=
  { scope with
    locals := names.foldl (fun locals name => Ordered.insertMember Symbol.cmp name locals)
      scope.locals }

def shadow (symbol replacement : Symbol) (scope : Scope) : Scope :=
  { scope with shadows := Ordered.insert Symbol.cmp symbol replacement scope.shadows }

/-- Gives local names their own spelling back. -/
def unshadow (names : List Symbol) (scope : Scope) : Scope :=
  { scope with
    shadows := names.foldl (fun shadows name => Ordered.erase Symbol.cmp name shadows)
      scope.shadows }

def enter (frame : Frame) (scope : Scope) : Scope := { scope with frame := some frame }

/-- No `recur` may stand here. -/
def block (scope : Scope) : Scope := { scope with frame := none }

def labelled (label : String) (scope : Scope) : Scope := { scope with label }

def allowDef (allowed : Bool) (scope : Scope) : Scope := { scope with defAllowed := allowed }

/-- The scope of tests, initial values, arguments and elements. -/
def argument (scope : Scope) : Scope := (scope.withContext .expression).block

/-- The scope of forms run for their effect. -/
def effect (scope : Scope) : Scope := (scope.withContext .statement).block

/-- Names bound by a parameter list, a loop header or a handler: local, and under
their own spelling. -/
def introduce (names : List Symbol) (scope : Scope) : Scope :=
  (scope.bind names).unshadow names

/-- Labels nest with a dot. -/
def nestedLabel (scope : Scope) (base : String) : String :=
  if scope.label = "" then base else scope.label ++ "." ++ base

end Scope

end LispFront
