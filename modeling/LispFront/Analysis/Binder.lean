import LispFront.Analysis.Block
import LispFront.Pattern.Loop
import LispFront.Pattern.Parameters

/-! `let` and `loop` bind names one after the other, each under a fresh name of its own; functions
and `foreach` bind theirs all at once and under their own spelling. Functions and loops open a
frame, which `recur` restarts. -/

namespace LispFront

namespace Binder

def pairs? : List Form → Option (List (Form × Form))
  | [] => some []
  | [_] => none
  | name :: value :: rest => (pairs? rest).map ((name, value) :: ·)

/-- The pairs of a binding vector and the body behind it. -/
def header (form : SpecialForm) (args : List Form) (span : Option Span) :
    Except AnalysisError (List (Form × Form) × List Form) :=
  match args with
  | [] => .error { fault := .argumentCount form 0, span }
  | .vector items vectorSpan _ :: body =>
    match pairs? items with
    | some pairs => .ok (pairs, body)
    | none => .error { fault := .oddBindings, span := vectorSpan }
  | other :: _ => .error (.atForm .bindingsNotVector other)

/-- Each value sees the names before it. Gives the scope of the body as well. -/
def bindAll (visit : Visit) :
    List (Symbol × Form) → Scope → AnalyzeM (List (Binding Node) × Scope)
  | [], scope => pure ([], scope)
  | (symbol, init) :: rest, scope => do
    let shadow ← AnalyzeM.ofNames (NameSupply.draw (.shadow symbol.base))
    let initScope := scope.argument.labelled (scope.nestedLabel symbol.base)
    let init ← visit init initScope
    let (bindings, bodyScope) ← bindAll visit rest ((scope.bind [symbol]).shadow symbol shadow)
    pure ({ scope := initScope, symbol, shadow, init, span := symbol.span } :: bindings,
      bodyScope)

/-- The symbols of pairs that bind plain symbols only. -/
def simplePairs (pairs : List (Form × Form)) : List (Symbol × Form) :=
  pairs.filterMap fun (pattern, init) => pattern.plainSymbol?.map fun symbol => (symbol, init)

end Binder

def analyzeLet (settings : Settings) (visit : Visit) (args : List Form) (span : Option Span)
    (scope : Scope) : AnalyzeM Node := do
  let (pairs, body) ← AnalyzeM.ofExcept (Binder.header .letIn args span)
  let flat ← AnalyzeM.ofNames (Pattern.lowerPairs settings.coreNamespace pairs)
  let (bindings, bodyScope) ← Binder.bindAll visit flat scope.returning
  let body ← analyzeBody visit body span bodyScope
  pure (.mk scope span (.letIn bindings body))

/-- A loop over patterns is lowered first. The frame of a loop covers its body and
not its first values. -/
def analyzeLoop (visit : Visit) (args : List Form) (span : Option Span) (scope : Scope) :
    AnalyzeM Node := do
  let (pairs, body) ← AnalyzeM.ofExcept (Binder.header .loop args span)
  if pairs.all fun (pattern, _) => Pattern.isSimple pattern then
    let flat := Binder.simplePairs pairs
    let frame ← AnalyzeM.newFrame (flat.map Prod.fst)
    let (bindings, bodyScope) ← Binder.bindAll visit flat scope.returning
    let body ← analyzeBody visit body span (bodyScope.enter frame)
    pure (.mk scope span (.loop frame bindings body))
  else
    let lowered ← AnalyzeM.ofNames (Pattern.lowerLoop pairs body span)
    visit lowered scope

/-- A function may capture all enclosing locals that its parameters do not hide. -/
def analyzeLambda (visit : Visit) (args : List Form) (span : Option Span) (scope : Scope) :
    AnalyzeM (Lambda Node) :=
  match args with
  | [] => AnalyzeM.fail (.argumentCount .fn 0) span
  | .vector items vectorSpan _ :: body => do
    let params ← AnalyzeM.ofNames (Parameters.lower items vectorSpan)
    let frame ← AnalyzeM.newFrame params.symbols
    let uses := scope.locals.filter fun name =>
      !params.symbols.any fun param => param.name == name.name
    let bodyScope := ((scope.introduce params.symbols).withContext .result).enter frame
    let body ← analyzeBody visit (Pattern.bindAround params.bindings body span) span bodyScope
    pure { params := params.symbols, variadic := params.variadic, uses, frame, body }
  | other :: _ => AnalyzeM.failAt .parametersNotVector other

def analyzeFn (visit : Visit) (args : List Form) (span : Option Span) (scope : Scope) :
    AnalyzeM Node := do
  let lambda ← analyzeLambda visit args span scope
  pure (.mk scope span (.fn lambda))

/-- The frame counts as restarted before the new values are looked at. -/
def analyzeRecur (visit : Visit) (args : List Form) (span : Option Span) (scope : Scope) :
    AnalyzeM Node :=
  match scope.frame with
  | none => AnalyzeM.fail .recurOutsideFrame span
  | some frame =>
    if frame.params.length = args.length then do
      AnalyzeM.activate frame
      let args ← visitAll visit scope.argument args
      pure (.mk scope span (.recur frame args))
    else
      AnalyzeM.fail (.recurCount frame.params.length args.length) span

/-- The collection is evaluated outside; the names are bound anew for each element. -/
def analyzeEach (visit : Visit) (key : Option Form) (value coll : Form) (body : List Form)
    (span : Option Span) (scope : Scope) : AnalyzeM Node := do
  let coll ← visit coll scope.argument
  let (value, valueBindings) ← AnalyzeM.ofNames (Pattern.nameFor value)
  let (key, keyBindings) ← AnalyzeM.ofNames (Pattern.nameForOption key)
  let bodyScope := (scope.introduce (value :: key.toList)).effect
  let body ← analyzeBody visit (Pattern.bindAround (valueBindings ++ keyBindings) body span)
    span bodyScope
  pure (.mk scope span (.foreach value key coll body))

/-- The header is `[value coll]` or `[key value coll]`. -/
def analyzeForeach (visit : Visit) (args : List Form) (span : Option Span) (scope : Scope) :
    AnalyzeM Node :=
  match args with
  | [] => AnalyzeM.fail (.argumentCount .foreach 0) span
  | .vector [value, coll] _ _ :: body => analyzeEach visit none value coll body span scope
  | .vector [key, value, coll] _ _ :: body =>
    analyzeEach visit (some key) value coll body span scope
  | .vector _ vectorSpan _ :: _ => AnalyzeM.fail .headerSize vectorSpan
  | other :: _ => AnalyzeM.failAt .headerNotVector other

end LispFront
