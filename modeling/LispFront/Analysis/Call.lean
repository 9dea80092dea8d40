import LispFront.Analysis.Resolve
import LispFront.Expansion.Host
import LispFront.Form.Locate

/-! A call whose head denotes a macro, or an inline function that takes the number of arguments
given, is replaced by the form the host makes of it, located at the call. Any other call has its
head and arguments analyzed. -/

namespace LispFront

/-- Carries out the steps of a host function. `reenter` analyzes at top level. -/
def HostAction.run (reenter : Form → AnalyzeM Node) :
    HostAction → StateM State (Except HostError Form)
  | .done result => pure result
  | .drawName stem next => fun state =>
    let (symbol, names) := state.names.next stem
    (next symbol).run reenter { state with names }
  | .restartNames next => fun state =>
    next.run reenter { state with names := .restart }
  | .changeRegistry change next => fun state =>
    let registry := change state.registry
    (next registry).run reenter { state with registry }
  | .analyze form next => fun state =>
    let (result, state) := reenter form state
    (next result).run reenter state

namespace Call

/-- A failing host call is reported at the call. -/
def callHost (host : Host) (reenter : Form → AnalyzeM Node) (callable : Callable)
    (args : List Form) (span : Option Span) : AnalyzeM Form := do
  let site : CallSite := { ns := (← AnalyzeM.registry).current, span }
  match ← (HostAction.run reenter (host.invoke callable args site) : StateM State _) with
  | .ok form => pure form
  | .error error =>
    throw { fault := .hostCall callable error, span, cause := some error.message }

/-- Which function of a definition makes the expansion of a call, if any does. -/
def expansionKind? (host : Host) (reenter : Form → AnalyzeM Node) (definition : Definition)
    (args : List Form) (span : Option Span) : AnalyzeM (Option CallableKind) := do
  if definition.isMacro then
    pure (some .macroBody)
  else if !definition.isInline then
    pure none
  else if !definition.hasInlineArity then
    pure (some .inlineBody)
  else
    let check : Callable :=
      { kind := .inlineArity, ns := definition.ns, base := definition.base }
    let verdict ← callHost host reenter check [.int args.length] span
    pure (if verdict.isTruthy then some .inlineBody else none)

def expansion? (host : Host) (reenter : Form → AnalyzeM Node) (definition : Definition)
    (args : List Form) (span : Option Span) : AnalyzeM (Option Form) := do
  match ← expansionKind? host reenter definition args span with
  | none => pure none
  | some kind =>
    let callable : Callable := { kind, ns := definition.ns, base := definition.base }
    let form ← callHost host reenter callable args span
    pure (some (form.locateAt span))

/-- The expansion of a call by its head. -/
def expanded? (settings : Settings) (host : Host) (reenter : Form → AnalyzeM Node)
    (head : Form) (args : List Form) (span : Option Span) (scope : Scope) :
    AnalyzeM (Option Form) :=
  match head.symbol? with
  | none => pure none
  | some symbol => do
    let registry ← AnalyzeM.registry
    match ← AnalyzeM.ofExcept
        (Resolve.expandable? settings.coreNamespace registry scope symbol) with
    | none => pure none
    | some definition => expansion? host reenter definition args span

end Call

/-- The result of an expansion is analyzed with `expand` in the scope of the call. -/
def analyzeCall (settings : Settings) (host : Host) (visit expand : Visit) (head : Form)
    (args : List Form) (span : Option Span) (scope : Scope) : AnalyzeM Node := do
  match ← Call.expanded? settings host (expand · .top) head args span scope with
  | some form => expand form scope
  | none =>
    let callee ← visit head scope.argument
    let args ← visitAll visit scope.argument args
    pure (.mk scope span (.call callee args))

end LispFront
