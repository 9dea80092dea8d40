import LispFront.Analysis.State

/-! Elements, tests and arguments are analyzed as arguments, so that no `recur` can stand in them.
The last form of a block takes over the block's own scope. -/

namespace LispFront

def literal (form : Form) (scope : Scope) : Node := .mk scope form.span (.literal form)

def analyzeVector (visit : Visit) (items : List Form) (span : Option Span) (scope : Scope) :
    AnalyzeM Node := do
  let elements ← visitAll visit scope.argument items
  pure (.mk scope span (.vector elements))

def visitEntries (visit : Visit) (scope : Scope) :
    List (Form × Form) → AnalyzeM (List (Node × Node))
  | [] => pure []
  | (key, value) :: rest => do
    let key ← visit key scope
    let value ← visit value scope
    let entries ← visitEntries visit scope rest
    pure ((key, value) :: entries)

def analyzeMap (visit : Visit) (entries : Entries) (span : Option Span) (scope : Scope) :
    AnalyzeM Node := do
  let entries ← visitEntries visit scope.argument entries
  pure (.mk scope span (.map entries))

/-- All but the last form run for their effect; without forms the value is nil. -/
def analyzeBody (visit : Visit) (forms : List Form) (span : Option Span) (scope : Scope) :
    AnalyzeM Node := do
  let stmts ← visitAll visit scope.effect forms.dropLast
  let ret ← visit (forms.getLastD .nil) scope
  pure (.mk scope span (.block stmts ret))

def analyzeChoice (visit : Visit) (test yes no : Form) (span : Option Span) (scope : Scope) :
    AnalyzeM Node := do
  let test ← visit test scope.argument
  let yes ← visit yes scope
  let no ← visit no scope
  pure (.mk scope span (.branch test yes no))

/-- Without a second branch its value is nil. -/
def analyzeBranch (visit : Visit) (args : List Form) (span : Option Span) (scope : Scope) :
    AnalyzeM Node :=
  match args with
  | [test, yes] => analyzeChoice visit test yes .nil span scope
  | [test, yes, no] => analyzeChoice visit test yes no span scope
  | _ => AnalyzeM.fail (.argumentCount .branch args.length) span

def analyzeQuote (args : List Form) (span : Option Span) (scope : Scope) : AnalyzeM Node :=
  match args with
  | [value] => pure (.mk scope span (.quote value))
  | _ => AnalyzeM.fail (.argumentCount .quote args.length) span

def analyzeThrow (visit : Visit) (args : List Form) (span : Option Span) (scope : Scope) :
    AnalyzeM Node :=
  match args with
  | [exception] => do
    let exception ← visit exception scope.argument
    pure (.mk scope span (.throw exception))
  | _ => AnalyzeM.fail (.argumentCount .throw args.length) span

def analyzeApply (visit : Visit) (args : List Form) (span : Option Span) (scope : Scope) :
    AnalyzeM Node :=
  match args with
  | callee :: first :: rest => do
    let callee ← visit callee scope.argument
    let args ← visitAll visit scope.argument (first :: rest)
    pure (.mk scope span (.apply callee args))
  | _ => AnalyzeM.fail (.argumentCount .apply args.length) span

end LispFront
