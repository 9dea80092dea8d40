import LispFront.Analysis.State

/-! Creating objects, reaching their members and working on native arrays. All parts are analyzed as
arguments. -/

namespace LispFront

def analyzeHostNew (visit : Visit) (args : List Form) (span : Option Span) (scope : Scope) :
    AnalyzeM Node :=
  match args with
  | [] => AnalyzeM.fail (.argumentCount .hostNew 0) span
  | cls :: rest => do
    let cls ← visit cls scope.argument
    let args ← visitAll visit scope.argument rest
    pure (.mk scope span (.hostNew cls args))

/-- A plain symbol behind the target is a property, a list a method call. -/
def analyzeHostMember (form : SpecialForm) (static : Bool) (visit : Visit) (args : List Form)
    (span : Option Span) (scope : Scope) : AnalyzeM Node :=
  match args with
  | [target, member] => do
    let target ← visit target scope.argument
    match member with
    | .list items _ _ =>
      match items.head?.bind Form.plainSymbol? with
      | some method =>
        let args ← visitAll visit scope.argument (items.drop 1)
        pure (.mk scope span (.hostMethodCall target static method args))
      | none => AnalyzeM.failAt (.memberCallUnnamed form) member
    | _ =>
      match member.plainSymbol? with
      | some property => pure (.mk scope span (.hostPropertyAccess target static property))
      | none => AnalyzeM.failAt (.memberKind form) member
  | _ => AnalyzeM.fail (.argumentCount form args.length) span

/-- Assigns to a property that is written as an access. -/
def analyzeHostPropertySet (visit : Visit) (args : List Form) (span : Option Span)
    (scope : Scope) : AnalyzeM Node :=
  match args with
  | [target, value] => do
    let target ← visit target scope.argument
    let value ← visit value scope.argument
    match target.shape with
    | .hostPropertyAccess .. => pure (.mk scope span (.hostPropertySet target value))
    | _ => AnalyzeM.fail .notPropertyAccess (target.span.or span)
  | _ => AnalyzeM.fail (.argumentCount .hostPropertySet args.length) span

/-- A form with exactly two arguments. -/
def analyzeHostPair (form : SpecialForm) (shape : Node → Node → Shape Node) (visit : Visit)
    (args : List Form) (span : Option Span) (scope : Scope) : AnalyzeM Node :=
  match args with
  | [first, second] => do
    let first ← visit first scope.argument
    let second ← visit second scope.argument
    pure (.mk scope span (shape first second))
  | _ => AnalyzeM.fail (.argumentCount form args.length) span

def analyzeHostArraySet (visit : Visit) (args : List Form) (span : Option Span)
    (scope : Scope) : AnalyzeM Node :=
  match args with
  | [array, index, value] => do
    let array ← visit array scope.argument
    let index ← visit index scope.argument
    let value ← visit value scope.argument
    pure (.mk scope span (.hostArraySet array index value))
  | _ => AnalyzeM.fail (.argumentCount .hostArraySet args.length) span

end LispFront
