import LispFront.Analysis.Binder
import LispFront.Analysis.Define

/-! An interface declares methods. A struct has fields and gives, interface by interface, a function
for every declared method and for no other. Its fields are local names inside its methods. -/

namespace LispFront

def plainSymbols (fault : Fault) : List Form → Except AnalysisError (List Symbol)
  | [] => .ok []
  | form :: rest =>
    match form.plainSymbol? with
    | some symbol => do
      let symbols ← plainSymbols fault rest
      return symbol :: symbols
    | none => .error (.atForm fault form)

/-- A declaration `(name [this args...] "comment")`; the comment may be missing. -/
def InterfaceMethod.ofForm (form : Form) : Except AnalysisError InterfaceMethod :=
  match form with
  | .list items _ _ =>
    match items.head?.bind Form.plainSymbol? with
    | none => .error (.atForm .interfaceMethodUnnamed form)
    | some name =>
      match items.drop 1 with
      | .vector (receiver :: others) _ _ :: tail => do
        let params ← plainSymbols .interfaceParameterNotSymbol (receiver :: others)
        match tail with
        | [] => return { name, params, comment := none }
        | [.str comment] => return { name, params, comment := some comment }
        | _ => .error (.atForm (.interfaceMethodTail name.text) form)
      | _ => .error (.atForm (.interfaceMethodNoInstance name.text) form)
  | _ => .error (.atForm .interfaceMethodNotList form)

def InterfaceMethod.ofForms : List Form → Except AnalysisError (List InterfaceMethod)
  | [] => .ok []
  | form :: rest => do
    let method ← ofForm form
    let methods ← ofForms rest
    return method :: methods

def analyzeDefInterface (args : List Form) (span : Option Span) (scope : Scope) :
    AnalyzeM Node :=
  if args.isEmpty then
    AnalyzeM.fail (.argumentCount .defInterface 0) span
  else do
    let name ← AnalyzeM.ofExcept (definedName .defInterface args span)
    let methods ← AnalyzeM.ofExcept (InterfaceMethod.ofForms (args.drop 1))
    let registry ← AnalyzeM.registry
    let _ ← AnalyzeM.define name ((Entries.flagged "interface").located span)
    AnalyzeM.changeRegistry (Registry.addInterface registry.current name.base
      (methods.map fun method => method.name.base))
    pure (.mk scope span (.defInterface registry.current name methods))

/-- The class that all declared exceptions extend. -/
def exceptionParent : String := "\\Exception"

def analyzeDefException (args : List Form) (span : Option Span) (scope : Scope) :
    AnalyzeM Node :=
  if args.length = 1 then do
    let name ← AnalyzeM.ofExcept (definedName .defException args span)
    let registry ← AnalyzeM.registry
    let _ ← AnalyzeM.define name ((Entries.flagged "exception").located span)
    pure (.mk scope span (.defException registry.current name exceptionParent))
  else
    AnalyzeM.fail (.argumentCount .defException args.length) span

namespace Struct

/-- A method as it is written: a list with its span. -/
structure MethodForm where
  items : List Form
  span : Option Span

/-- An interface and the methods written behind it. -/
structure Group where
  interface : Symbol
  methods : List MethodForm

/-- Puts a method into the group it follows. -/
def addMethod (method : MethodForm) : List Group → Option (List Group)
  | [] => none
  | [group] => some [{ group with methods := group.methods ++ [method] }]
  | group :: rest => (addMethod method rest).map (group :: ·)

/-- Extends the groups so far by the forms that follow. -/
def group (groups : List Group) : List Form → Except AnalysisError (List Group)
  | [] => .ok groups
  | .symbol name span metadata :: rest =>
    group (groups ++ [{ interface := { name, span, metadata }, methods := [] }]) rest
  | .list items span metadata :: rest =>
    match addMethod { items, span } groups with
    | some groups => group groups rest
    | none => .error (.atForm .strayStructMethod (.list items span metadata))
  | other :: _ => .error (.atForm (.strayStructForm other.kindName) other)

def fields (args : List Form) (span : Option Span) : Except AnalysisError (List Symbol) :=
  match args.drop 1 with
  | .vector items _ _ :: _ => plainSymbols .fieldNotSymbol items
  | others => .error { fault := .fieldsNotVector, span := (others.head?.bind Form.span).or span }

/-- The interface that a symbol names, with its declared methods. -/
def interface? (core : String) (registry : Registry) (symbol : Symbol) :
    Except AnalysisError (Definition × List String) := do
  let unresolved : AnalysisError :=
    { fault := .unresolvedInterface symbol.name, span := symbol.span }
  match ← Resolve.global? core registry symbol with
  | none => throw unresolved
  | some definition =>
    match registry.interface? definition.ns definition.base with
    | none => throw unresolved
    | some methods => return (definition, methods)

def methodName (method : MethodForm) (definition : Definition) (declared : List String) :
    Except AnalysisError Symbol :=
  match method.items.head?.bind Form.plainSymbol? with
  | none => .error { fault := .structMethodUnnamed, span := method.span }
  | some name =>
    if declared.contains name.base then .ok name
    else .error
      { fault := .undeclaredMethod definition.fullName name.text, span := name.span }

/-- A method is analyzed like a function of the forms behind its name. -/
def analyzeMethods (visit : Visit) (definition : Definition) (declared : List String)
    (scope : Scope) : List MethodForm → AnalyzeM (List (StructMethod Node))
  | [] => pure []
  | method :: rest => do
    let name ← AnalyzeM.ofExcept (methodName method definition declared)
    let lambda ← analyzeLambda visit (method.items.drop 1) method.span scope
    let methods ← analyzeMethods visit definition declared scope rest
    pure ({ name, scope, span := method.span, lambda } :: methods)

/-- The declared methods that no given one implements. -/
def missing (declared : List String) (methods : List (StructMethod Node)) : List String :=
  declared.filter fun base => !methods.any fun method => method.name.base == base

def analyzeGroup (settings : Settings) (visit : Visit) (scope : Scope) (group : Group) :
    AnalyzeM (Implementation Node) := do
  let registry ← AnalyzeM.registry
  let (definition, declared) ←
    AnalyzeM.ofExcept (interface? settings.coreNamespace registry group.interface)
  let methods ← analyzeMethods visit definition declared scope group.methods
  match missing declared methods with
  | [] => pure { interface := platformName definition.ns definition.base, methods }
  | absent =>
    AnalyzeM.fail (.missingMethods definition.fullName absent) group.interface.span

def analyzeGroups (settings : Settings) (visit : Visit) (scope : Scope) :
    List Group → AnalyzeM (List (Implementation Node))
  | [] => pure []
  | group :: rest => do
    let implementation ← analyzeGroup settings visit scope group
    let implementations ← analyzeGroups settings visit scope rest
    pure (implementation :: implementations)

end Struct

/-- The struct is defined before its methods are looked at and stays defined when
one of them is wrong. -/
def analyzeDefStruct (settings : Settings) (visit : Visit) (args : List Form)
    (span : Option Span) (scope : Scope) : AnalyzeM Node :=
  if args.length < 2 then
    AnalyzeM.fail (.argumentCount .defStruct args.length) span
  else do
    let name ← AnalyzeM.ofExcept (definedName .defStruct args span)
    let fields ← AnalyzeM.ofExcept (Struct.fields args span)
    let registry ← AnalyzeM.registry
    let _ ← AnalyzeM.define name ((Entries.flagged "struct").located span)
    let methodScope :=
      (scope.introduce fields).labelled (platformName registry.current name.base)
    let groups ← AnalyzeM.ofExcept (Struct.group [] (args.drop 2))
    let interfaces ← Struct.analyzeGroups settings visit methodScope groups
    pure (.mk scope span (.defStruct registry.current name fields interfaces))

end LispFront
