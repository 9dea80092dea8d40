import LispFront.Analysis.Block
import LispFront.Analysis.Resolve

/-! A `try` is a body, then any number of `catch` clauses, then at most one `finally` clause and
nothing behind it. Without clauses it is a plain block. -/

namespace LispFront

namespace Guarded

/-- A list with its head apart. -/
structure Clause where
  head : Form
  items : List Form
  span : Option Span
  metadata : Entries

def Clause.form (clause : Clause) : Form :=
  .list (clause.head :: clause.items) clause.span clause.metadata

structure Parts where
  body : List Form
  handlers : List Clause
  cleanup : Option Clause

/-- The clause that a form is, if it has this head. -/
def clause? (base : String) : Form → Option Clause
  | .list (head :: items) span metadata =>
    if head.isNamed base then some { head, items, span, metadata } else none
  | _ => none

def isClause (form : Form) : Bool :=
  (clause? "catch" form).isSome || (clause? "finally" form).isSome

/-- The clauses, from the first one on. -/
def clauses : List Form → Except AnalysisError (List Clause × Option Clause)
  | [] => .ok ([], none)
  | form :: rest =>
    match clause? "catch" form with
    | some clause => do
      let (handlers, cleanup) ← clauses rest
      return (clause :: handlers, cleanup)
    | none =>
      match clause? "finally" form, rest with
      | some clause, [] => .ok ([], some clause)
      | some _, stray :: _ => .error (.atForm .strayTryForm stray)
      | none, _ => .error (.atForm .strayTryForm form)

def parts (forms : List Form) : Except AnalysisError Parts := do
  let body := forms.takeWhile fun form => !isClause form
  let (handlers, cleanup) ← clauses (forms.dropWhile fun form => !isClause form)
  return { body, handlers, cleanup }

/-- A clause `(catch Class name body...)`. -/
def analyzeHandler (settings : Settings) (visit : Visit) (scope : Scope) (clause : Clause) :
    AnalyzeM (Handler Node) :=
  match clause.items with
  | cls :: name :: body =>
    match cls.symbol?, name.plainSymbol? with
    | some cls, some name => do
      let exception ← analyzeSymbol settings cls scope.argument
      match exception.shape with
      | .hostClass _ =>
        let body ← analyzeBody visit body clause.span (scope.introduce [name]).block
        pure { scope, exception, symbol := name, body, span := clause.span }
      | _ => AnalyzeM.fail (.unresolvedException cls.name) cls.span
    | _, _ => AnalyzeM.fail .malformedCatch clause.span
  | _ => AnalyzeM.fail .malformedCatch clause.span

def analyzeHandlers (settings : Settings) (visit : Visit) (scope : Scope) :
    List Clause → AnalyzeM (List (Handler Node))
  | [] => pure []
  | clause :: rest => do
    let handler ← analyzeHandler settings visit scope clause
    let handlers ← analyzeHandlers settings visit scope rest
    pure (handler :: handlers)

def analyzeCleanup (visit : Visit) (scope : Scope) :
    Option Clause → AnalyzeM (Option Node)
  | some clause => do
    let node ← analyzeBody visit clause.items clause.span scope
    pure (some node)
  | none => pure none

/-- The body and the handlers give the value; the cleanup runs for its effect. -/
def analyzeParts (settings : Settings) (visit : Visit) (parts : Parts) (span : Option Span)
    (scope : Scope) : AnalyzeM Node := do
  let body ← analyzeBody visit parts.body span scope.returning.block
  let handlers ← analyzeHandlers settings visit scope.returning parts.handlers
  let cleanup ← analyzeCleanup visit scope.effect parts.cleanup
  pure (.mk scope span (.guarded body handlers cleanup))

end Guarded

def analyzeGuarded (settings : Settings) (visit : Visit) (args : List Form)
    (span : Option Span) (scope : Scope) : AnalyzeM Node := do
  let parts ← AnalyzeM.ofExcept (Guarded.parts args)
  if parts.handlers.isEmpty && parts.cleanup.isNone then
    analyzeBody visit parts.body span scope
  else
    Guarded.analyzeParts settings visit parts span scope

end LispFront
