import LispFront.Node
import LispFront.Registry
import LispFront.Text.Quoted

/-! Analysis never runs user code itself: it hands the unevaluated arguments of a call to a host. A
host may take several steps before it answers. It can draw fresh names, read and change the
registry, and have a form analyzed at top level; what it cannot do is reach into the analysis that
called it. -/

namespace LispFront

/-- What a host function does, step by step. -/
inductive HostAction where
  | done (result : Except HostError Form)
  | drawName (stem : String) (next : Symbol → HostAction)
  | restartNames (next : HostAction)
  /-- Goes on with the changed registry. -/
  | changeRegistry (change : Registry → Registry) (next : Registry → HostAction)
  | analyze (form : Form) (next : Except AnalysisError Node → HostAction)

/-- Where a call stands. -/
structure CallSite where
  ns : String
  span : Option Span

structure Host where
  /-- How the host shows itself. -/
  label : String
  invoke : Callable → List Form → CallSite → HostAction

namespace Host

/-- Has no functions at all. -/
def none : Host where
  label := "NoMacroHost"
  invoke callable _ _ := .done (.error (.unbound callable))

abbrev Function := List Form → CallSite → HostAction

/-- A later function for a callable replaces the earlier one. -/
def bind (callable : Callable) (function : Function) :
    List (Callable × Function) → List (Callable × Function)
  | [] => [(callable, function)]
  | entry :: rest =>
    if entry.1 = callable then (callable, function) :: rest
    else entry :: bind callable function rest

/-- Bound callables are shown in order of their texts. -/
def describe (functions : List (Callable × Function)) : String :=
  let texts := (functions.map fun entry => entry.1.describe).mergeSort fun a b => !(b < a)
  "FnMacroHost \x7b functions: [" ++ ", ".intercalate (texts.map Text.quoted) ++ "] \x7d"

def ofFunctions (bound : List (Callable × Function)) : Host :=
  let functions := bound.foldl (fun functions entry => bind entry.1 entry.2 functions) []
  { label := describe functions
    invoke := fun callable args site =>
      match functions.lookup callable with
      | some function => function args site
      | Option.none => .done (.error (.unbound callable)) }

end Host

end LispFront
