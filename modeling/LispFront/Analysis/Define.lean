import LispFront.Analysis.Resolve

/-! A definition is registered before its value is analyzed, so that the value can refer to it, and
taken back when the value turns out wrong. Its metadata comes from the form behind the name, the
name itself, and the place of the definition. -/

namespace LispFront

namespace Entries

def single (key value : Form) : Entries := [(key, value)]

/-- A flag under a plain keyword. -/
def flagged (base : String) : Entries := single (.plainKeyword base) (.bool true)

/-- A text is documentation, a keyword a flag, and a map itself. -/
def ofMetadataForm : Form → Except AnalysisError Entries
  | .str text => .ok (single (.plainKeyword "doc") (.str text))
  | .keyword name => .ok (single (.keyword name) (.bool true))
  | .map entries _ _ => .ok entries
  | form => .error (.atForm .malformedMetadata form)

/-- One end of a span. Numbers beyond the signed range wrap around. -/
def ofPosition (line column : UInt64) (file : Option String) : Form :=
  let numbers := [(Form.plainKeyword "line", Form.int line.toInt64.toInt),
    (Form.plainKeyword "column", Form.int column.toInt64.toInt)]
  let path := file.toList.map fun path => (Form.plainKeyword "file", Form.str path)
  .map (ofList (numbers ++ path)) none []

def ofSpan (span : Span) : Entries :=
  ofList [(.plainKeyword "start-location", ofPosition span.startLine span.startColumn span.file),
    (.plainKeyword "end-location", ofPosition span.endLine span.endColumn span.file)]

/-- Adds the place of a definition, if it is known. -/
def located (span : Option Span) (entries : Entries) : Entries :=
  match span with
  | some span => entries.union (ofSpan span)
  | none => entries

end Entries

/-- The plain symbol that a defining form names. -/
def definedName (form : SpecialForm) (args : List Form) (span : Option Span) :
    Except AnalysisError Symbol :=
  match args.head?.bind Form.plainSymbol? with
  | some symbol => .ok symbol
  | none =>
    .error { fault := .unnamedDefinition form, span := (args.head?.bind Form.span).or span }

/-- How the platform names a definition. -/
def platformName (ns base : String) : String := ns ++ "\\" ++ base

def visitBoth (visit : Visit) (first second : Form) (scope : Scope) : AnalyzeM (Node × Node) := do
  let first ← visit first scope
  let second ← visit second scope
  pure (first, second)

namespace Definition

/-- The metadata form, if there is one, and the value behind the name. -/
def parts (args : List Form) (span : Option Span) :
    Except AnalysisError (Option Form × Form) :=
  match args.drop 1 with
  | [metadata, init] => .ok (some metadata, init)
  | [init] => .ok (none, init)
  | _ => .error { fault := .argumentCount .define args.length, span }

def collectMetadata (name : Symbol) (form : Option Form) (span : Option Span) :
    Except AnalysisError Entries :=
  match form with
  | some form => do
    let entries ← Entries.ofMetadataForm form
    return (entries.union name.metadata).located span
  | none => return name.metadata.located span

end Definition

/-- A definition inside of another is refused before anything else is looked at. -/
def analyzeDefine (visit : Visit) (args : List Form) (span : Option Span) (scope : Scope) :
    AnalyzeM Node :=
  if scope.defAllowed then do
    let (metadataForm, init) ← AnalyzeM.ofExcept (Definition.parts args span)
    let name ← AnalyzeM.ofExcept (definedName .define args span)
    let metadata ← AnalyzeM.ofExcept (Definition.collectMetadata name metadataForm span)
    let registry ← AnalyzeM.registry
    let previous ← AnalyzeM.define name metadata
    let initScope :=
      (scope.argument.allowDef false).labelled (platformName registry.current name.base)
    let (metadataNode, init) ←
      AnalyzeM.onFailure (Registry.restoreDefinition registry.current name.base previous)
        (visitBoth visit (.map metadata span []) init initScope)
    pure (.mk scope span (.define registry.current name metadata metadataNode init))
  else
    AnalyzeM.fail .nestedDefinition span

def analyzeAssign (settings : Settings) (visit : Visit) (args : List Form)
    (span : Option Span) (scope : Scope) : AnalyzeM Node :=
  match args with
  | [target, value] =>
    match target.symbol? with
    | none => AnalyzeM.fail .assignNotSymbol (target.span.or span)
    | some symbol => do
      let target ← analyzeSymbol settings symbol scope.argument
      match target.shape with
      | .globalVar .. =>
        let value ← visit value scope.argument
        pure (.mk scope span (.assign target value))
      | _ => AnalyzeM.fail .assignNotGlobal (target.span.or span)
  | _ => AnalyzeM.fail (.argumentCount .assign args.length) span

end LispFront
