import LispFront.Analysis.State
import LispFront.Text.Segments

/-! An `ns` form is read as a whole into a `Declaration` and takes effect only when all of it is in
order. Names of namespaces are segments divided by dots; each is an identifier and none is a
reserved word. -/

namespace LispFront

namespace Settings

def isSegment (segment : String) : Bool :=
  match segment.toList with
  | [] => false
  | first :: rest =>
    (first.isAlpha || first == '_') && rest.all fun c => c.isAlphanum || c == '_' || c == '-'

def checkSegments (settings : Settings) (span : Option Span) :
    List String → Except AnalysisError Unit
  | [] => .ok ()
  | segment :: rest =>
    if settings.isReserved segment then .error { fault := .reservedSegment segment, span }
    else if isSegment segment then settings.checkSegments span rest
    else .error { fault := .invalidSegment, span }

def checkNamespace (settings : Settings) (ns : String) (span : Option Span) :
    Except AnalysisError Unit :=
  settings.checkSegments span (Text.segments (· == '.') ns)

end Settings

/-- What an `ns` form asks for. -/
structure Declaration where
  /-- The namespaces to load first. -/
  requires : List Symbol := []
  requireFiles : List String := []
  classAliases : List (String × String) := []
  namespaceAliases : List (String × String) := []
  refers : List (String × String) := []

namespace Declaration

def append (a b : Declaration) : Declaration where
  requires := a.requires ++ b.requires
  requireFiles := a.requireFiles ++ b.requireFiles
  classAliases := a.classAliases ++ b.classAliases
  namespaceAliases := a.namespaceAliases ++ b.namespaceAliases
  refers := a.refers ++ b.refers

/-- The short name of a class or namespace is its last segment. -/
def shortName (name : String) : String :=
  Text.lastSegment (fun c => c == '.' || c == '\\') name

/-- Classes are written from the root, with backslashes between the segments. -/
def className (name : String) : String :=
  String.ofList ('\\' :: (name.toList.dropWhile (· == '\\')).map
    fun c => if c == '.' then '\\' else c)

/-- Classes, each with an alias behind `:as` or without. -/
def uses (clause : Form) : List Form → Except AnalysisError (List (String × String))
  | [] => .ok []
  | form :: rest =>
    match form.plainSymbol? with
    | none => .error (.atForm .useNotSymbol form)
    | some cls =>
      match rest with
      | [] => .ok [(shortName cls.base, className cls.base)]
      | mark :: behind =>
        if mark.isKeyword "as" then
          match behind with
          | [] => .error (.atForm .useAliasNotSymbol clause)
          | name :: others =>
            match name.plainSymbol? with
            | none => .error (.atForm .useAliasNotSymbol clause)
            | some name => do
              let aliases ← uses clause others
              return (name.base, className cls.base) :: aliases
        else do
          let aliases ← uses clause (mark :: behind)
          return (shortName cls.base, className cls.base) :: aliases

def referred : List Form → Except AnalysisError (List String)
  | [] => .ok []
  | form :: rest =>
    match form.plainSymbol? with
    | none => .error (.atForm .referNotSymbol form)
    | some symbol => do
      let names ← referred rest
      return symbol.base :: names

/-- One option: an alias or names to refer to. -/
def option (clause mark value : Form) : Except AnalysisError (Option String × List String) :=
  match value with
  | .vector items _ _ =>
    if mark.isKeyword "refer" then do
      let names ← referred items
      return (none, names)
    else
      .error (.atForm .requireOption clause)
  | _ =>
    match mark.isKeyword "as", value.plainSymbol? with
    | true, some symbol => .ok (some symbol.base, [])
    | _, _ => .error (.atForm .requireOption clause)

/-- The last alias counts, and all referred names do. -/
def options (clause : Form) : List Form → Except AnalysisError (Option String × List String)
  | [] => .ok (none, [])
  | [_] => .error (.atForm .requireOption clause)
  | mark :: value :: rest => do
    let (short, names) ← option clause mark value
    let (later, others) ← options clause rest
    return (later.or short, names ++ others)

def ofRequire (settings : Settings) (clause : Form) (args : List Form) :
    Except AnalysisError Declaration :=
  match args.head?.bind Form.plainSymbol? with
  | none => .error (.atForm .requireNotSymbol clause)
  | some target => do
    settings.checkNamespace target.base target.span
    let (short, names) ← options clause (args.drop 1)
    return {
      requires := [target]
      namespaceAliases := [(short.getD (shortName target.base), target.base)]
      refers := names.map fun name => (name, target.base) }

def files : List Form → Except AnalysisError (List String)
  | [] => .ok []
  | .str path :: rest => do
    let paths ← files rest
    return path :: paths
  | form :: _ => .error (.atForm .requireFileNotString form)

/-- A clause is a list headed by a plain keyword. -/
def ofClause (settings : Settings) (clause : Form) : Except AnalysisError Declaration :=
  match clause with
  | .list (.keyword { ns := none, base } :: args) _ _ =>
    match base with
    | "use" => do
      let classAliases ← uses clause args
      return { classAliases }
    | "require" => ofRequire settings clause args
    | "require-file" => do
      let requireFiles ← files args
      return { requireFiles }
    | _ => .error (.atForm (.unknownClause base) clause)
  | _ => .error (.atForm .malformedClause clause)

def ofClauses (settings : Settings) : List Form → Except AnalysisError Declaration
  | [] => .ok {}
  | clause :: rest => do
    let here ← ofClause settings clause
    let there ← ofClauses settings rest
    return here.append there

/-- All namespaces but the core one require it. -/
def core (settings : Settings) (ns : String) : Declaration :=
  if ns = settings.coreNamespace then {} else { requires := [.plain settings.coreNamespace] }

/-- Makes the namespace the current one and gives it its names for things of others. -/
def register (ns : String) (declaration : Declaration) (registry : Registry) : Registry :=
  let registry := registry.setCurrent ns
  let registry := declaration.classAliases.foldl
    (fun registry entry => registry.addClassAlias ns entry.1 entry.2) registry
  let registry := declaration.namespaceAliases.foldl
    (fun registry entry => registry.addNamespaceAlias ns entry.1 entry.2) registry
  declaration.refers.foldl
    (fun registry entry => registry.addRefer ns entry.1 entry.2) registry

/-- The namespace of an `ns` form and what it asks for. -/
def ofArgs (settings : Settings) (args : List Form) (span : Option Span) :
    Except AnalysisError (String × Declaration) :=
  match args with
  | [] => .error { fault := .argumentCount .ns 0, span }
  | name :: clauses =>
    match name.plainSymbol? with
    | none => .error (.atForm .namespaceNotSymbol name)
    | some symbol => do
      settings.checkNamespace symbol.base symbol.span
      let declared ← ofClauses settings clauses
      return (symbol.base, (core settings symbol.base).append declared)

/-- The namespace of an `in-ns` form: a plain symbol, quoted or not, or a text. -/
def inNamespace (arg : Form) : Except AnalysisError String :=
  match arg with
  | .str text => .ok text
  | .list [head, quoted] _ _ =>
    match head.isNamed "quote", quoted.plainSymbol? with
    | true, some symbol => .ok symbol.base
    | _, _ => .error (.atForm .inNamespaceName arg)
  | _ =>
    match arg.plainSymbol? with
    | some symbol => .ok symbol.base
    | none => .error (.atForm .inNamespaceName arg)

end Declaration

def analyzeNs (settings : Settings) (args : List Form) (span : Option Span) (scope : Scope) :
    AnalyzeM Node := do
  let (ns, declaration) ← AnalyzeM.ofExcept (Declaration.ofArgs settings args span)
  AnalyzeM.changeRegistry (declaration.register ns)
  pure (.mk scope span (.ns ns declaration.requires declaration.requireFiles))

def analyzeInNs (settings : Settings) (args : List Form) (span : Option Span) (scope : Scope) :
    AnalyzeM Node :=
  match args with
  | [arg] => do
    let ns ← AnalyzeM.ofExcept (Declaration.inNamespace arg)
    AnalyzeM.ofExcept (settings.checkNamespace ns (arg.span.or span))
    AnalyzeM.changeRegistry (Registry.setCurrent ns)
    pure (.mk scope span (.inNs ns))
  | _ => AnalyzeM.fail (.argumentCount .inNs args.length) span

end LispFront
