import LispFront.Analysis.State

/-! A symbol means the first of these that applies: a name of the host platform, a local, a short
name of a host class, a definition. A qualified name is looked up in the namespace it names,
directly or by a short name; a plain one in the current namespace, among the names it refers to, and
in the core namespace. -/

namespace LispFront

namespace Registry

/-- The namespace that a qualifier stands for in the current namespace. -/
def qualifier (registry : Registry) (ns : String) : String :=
  (registry.namespaceAlias? registry.current ns).getD ns

def plainDefinition? (registry : Registry) (core base : String) : Option Definition :=
  (registry.definition? registry.current base).or
    (((registry.refer? registry.current base).bind fun source =>
      registry.definition? source base).or
      (registry.definition? core base))

def lookup? (registry : Registry) (core : String) (name : Name) : Option Definition :=
  match name.ns with
  | some ns => registry.definition? (registry.qualifier ns) name.base
  | none => registry.plainDefinition? core name.base

end Registry

namespace Resolve

/-- The definition that a symbol denotes if it is neither local nor of the host. Of
another namespace's private definitions there is no use. -/
def global? (core : String) (registry : Registry) (symbol : Symbol) :
    Except AnalysisError (Option Definition) :=
  match registry.lookup? core symbol.name with
  | some definition =>
    if definition.isPrivate && definition.ns != registry.current then
      .error { fault := .privateDefinition definition.fullName, span := symbol.span }
    else
      .ok (some definition)
  | none => .ok none

/-- Fully qualified host classes start with a backslash. -/
def isClassName (base : String) : Bool :=
  base.toList.head? == some '\\'

def isLocal (scope : Scope) (symbol : Symbol) : Bool :=
  !symbol.isQualified && (scope.isLocal symbol || (scope.shadow? symbol).isSome)

def classAlias? (registry : Registry) (symbol : Symbol) : Option String :=
  if symbol.isQualified then none else registry.classAlias? registry.current symbol.base

/-- A name of the host platform. -/
def host? {ν : Type} (symbol : Symbol) : Option (Shape ν) :=
  match symbol.ns with
  | some ns => if ns = hostNamespace then some (.hostVar symbol.base) else none
  | none => if isClassName symbol.base then some (.hostClass symbol.base) else none

def shape {ν : Type} (core : String) (registry : Registry) (scope : Scope) (symbol : Symbol) :
    Except AnalysisError (Shape ν) :=
  match host? symbol with
  | some shape => .ok shape
  | none =>
    if isLocal scope symbol then
      .ok (.localVar symbol (scope.shadow? symbol))
    else
      match classAlias? registry symbol with
      | some cls => .ok (.hostClass cls)
      | none =>
        match global? core registry symbol with
        | .error error => .error error
        | .ok (some definition) => .ok (.globalVar definition.ns symbol definition.metadata)
        | .ok none => .error { fault := .unresolvedSymbol symbol.name, span := symbol.span }

/-- The definition through which a call of the symbol may be expanded. -/
def expandable? (core : String) (registry : Registry) (scope : Scope) (symbol : Symbol) :
    Except AnalysisError (Option Definition) :=
  if symbol.ns = some hostNamespace || isClassName symbol.base || isLocal scope symbol ||
      (classAlias? registry symbol).isSome then
    .ok none
  else
    global? core registry symbol

end Resolve

def analyzeSymbol (settings : Settings) (symbol : Symbol) (scope : Scope) : AnalyzeM Node := do
  let registry ← AnalyzeM.registry
  let shape ← AnalyzeM.ofExcept (Resolve.shape settings.coreNamespace registry scope symbol)
  pure (.mk scope symbol.span shape)

end LispFront
