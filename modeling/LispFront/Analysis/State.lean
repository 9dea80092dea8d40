import LispFront.Node
import LispFront.Pattern.Basic
import LispFront.Registry

/-! Analysis reads and writes the registry, draws fresh names, and hands out recursion frames. What
it did stays done when it fails: there is a state after an error too. -/

namespace LispFront

structure State where
  registry : Registry
  names : NameSupply := {}
  /-- For each frame handed out, by its number, whether some `recur` restarts it. -/
  frames : List Bool := []

def State.isActive (state : State) (frame : Frame) : Bool := state.frames.getD frame.id false

abbrev AnalyzeM := ExceptT AnalysisError (StateM State)

/-- The analysis of a form in a scope, as the rules of the forms around it use it. -/
abbrev Visit := Form → Scope → AnalyzeM Node

namespace AnalyzeM

variable {α : Type}

def fail (fault : Fault) (span : Option Span) : AnalyzeM α := throw { fault, span }

def failAt (fault : Fault) (form : Form) : AnalyzeM α := throw (.atForm fault form)

def ofExcept (result : Except AnalysisError α) : AnalyzeM α :=
  fun state => (result, state)

/-- Names stay drawn when the drawing fails. -/
def ofNames (draw : NameM α) : AnalyzeM α := fun state =>
  let (result, names) := draw state.names
  (result, { state with names })

def registry : AnalyzeM Registry := return (← get).registry

def changeRegistry (change : Registry → Registry) : AnalyzeM Unit :=
  modify fun state => { state with registry := change state.registry }

/-- Undoes part of the registry's changes when a step fails. -/
def onFailure (undo : Registry → Registry) (step : AnalyzeM α) : AnalyzeM α := fun state =>
  match step state with
  | (.error error, state) => (.error error, { state with registry := undo state.registry })
  | done => done

def newFrame (params : List Symbol) : AnalyzeM Frame :=
  modifyGet fun state =>
    ({ id := state.frames.length, params }, { state with frames := state.frames ++ [false] })

def activate (frame : Frame) : AnalyzeM Unit :=
  modify fun state => { state with frames := state.frames.set frame.id true }

/-- Defines a name in the current namespace; gives the definition it replaced. -/
def define (name : Symbol) (metadata : Entries) : AnalyzeM (Option Definition) := do
  let registry ← registry
  match registry.addDefinition registry.current name.base metadata with
  | .ok (previous, registry) =>
    changeRegistry fun _ => registry
    pure previous
  | .error fault => throw { fault, span := name.span, cause := some fault.message }

end AnalyzeM

/-- Visits forms from left to right in one scope. -/
def visitAll (visit : Visit) (scope : Scope) : List Form → AnalyzeM (List Node)
  | [] => pure []
  | form :: rest => do
    let node ← visit form scope
    let nodes ← visitAll visit scope rest
    pure (node :: nodes)

end LispFront
