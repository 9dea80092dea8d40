/-! A definition may have up to three functions that the host runs at analysis time: its macro, its
inline function, and the check whether the inline function takes a given number of arguments. -/

namespace LispFront

inductive CallableKind where
  | macroBody
  | inlineBody
  | inlineArity
  deriving DecidableEq, Repr

def CallableKind.describe : CallableKind → String
  | .macroBody => "macro"
  | .inlineBody => "inline function"
  | .inlineArity => "inline arity check"

structure Callable where
  kind : CallableKind
  ns : String
  base : String
  deriving DecidableEq, Repr

/-- The name of the definition it belongs to. -/
def Callable.fullName (callable : Callable) : String :=
  callable.ns ++ "/" ++ callable.base

def Callable.describe (callable : Callable) : String :=
  callable.kind.describe ++ " " ++ callable.fullName

/-- Why a host call gave no form. -/
inductive HostError where
  | unbound (callable : Callable)
  | failed (reason : String)
  deriving DecidableEq, Repr

def HostError.message : HostError → String
  | .unbound callable => "no host function bound for " ++ callable.describe
  | .failed reason => reason

end LispFront
