import LispFront.Scope

/-! A node is the analysis of one form: the scope it stood in, its span, and its shape. Shapes are
generic in the nodes they contain, so that what is said of a node's parts is said once for all
shapes. -/

namespace LispFront

/-- One `name value` pair of a `let` or `loop`. -/
structure Binding (ν : Type) where
  scope : Scope
  symbol : Symbol
  shadow : Symbol
  init : ν
  span : Option Span

/-- A handler of a `try`. The kind of exception is a host class. -/
structure Handler (ν : Type) where
  scope : Scope
  exception : ν
  symbol : Symbol
  body : ν
  span : Option Span

/-- What a function consists of, apart from its scope and span. -/
structure Lambda (ν : Type) where
  params : List Symbol
  variadic : Bool
  /-- Enclosing locals that the body may capture. -/
  uses : List Symbol
  frame : Frame
  body : ν

structure InterfaceMethod where
  name : Symbol
  params : List Symbol
  comment : Option String
  deriving Repr

structure StructMethod (ν : Type) where
  name : Symbol
  scope : Scope
  span : Option Span
  lambda : Lambda ν

/-- The methods a struct gives for one interface. -/
structure Implementation (ν : Type) where
  interface : String
  methods : List (StructMethod ν)

inductive Shape (ν : Type) where
  | literal (value : Form)
  | quote (value : Form)
  | vector (elements : List ν)
  | map (entries : List (ν × ν))
  | localVar (name : Symbol) (shadow : Option Symbol)
  | globalVar (ns : String) (name : Symbol) (metadata : Entries)
  | hostVar (name : String)
  | hostClass (name : String)
  | call (callee : ν) (args : List ν)
  | apply (callee : ν) (args : List ν)
  | branch (test yes no : ν)
  | block (stmts : List ν) (ret : ν)
  | letIn (bindings : List (Binding ν)) (body : ν)
  | loop (frame : Frame) (bindings : List (Binding ν)) (body : ν)
  | fn (lambda : Lambda ν)
  | recur (frame : Frame) (args : List ν)
  | foreach (value : Symbol) (key : Option Symbol) (coll body : ν)
  | guarded (body : ν) (handlers : List (Handler ν)) (cleanup : Option ν)
  | throw (exception : ν)
  | define (ns : String) (name : Symbol) (metadata : Entries) (metadataNode init : ν)
  | assign (target value : ν)
  | defStruct (ns : String) (name : Symbol) (fields : List Symbol)
      (interfaces : List (Implementation ν))
  | defInterface (ns : String) (name : Symbol) (methods : List InterfaceMethod)
  | defException (ns : String) (name : Symbol) (parent : String)
  | ns (ns : String) (requires : List Symbol) (requireFiles : List String)
  | inNs (ns : String)
  | hostNew (cls : ν) (args : List ν)
  | hostMethodCall (target : ν) (static : Bool) (method : Symbol) (args : List ν)
  | hostPropertyAccess (target : ν) (static : Bool) (property : Symbol)
  | hostPropertySet (target value : ν)
  | hostArrayGet (array index : ν)
  | hostArraySet (array index value : ν)
  | hostArrayPush (array value : ν)
  | hostArrayUnset (array index : ν)

inductive Node where
  | mk (scope : Scope) (span : Option Span) (shape : Shape Node)

/-- The nodes directly inside, in evaluation order. The class of a handler is not
evaluated and not among them. -/
def Shape.children {ν : Type} : Shape ν → List ν
  | .vector elements => elements
  | .map entries => entries.flatMap fun entry => [entry.1, entry.2]
  | .call callee args | .apply callee args => callee :: args
  | .branch test yes no => [test, yes, no]
  | .block stmts ret => stmts ++ [ret]
  | .letIn bindings body | .loop _ bindings body => bindings.map Binding.init ++ [body]
  | .fn lambda => [lambda.body]
  | .recur _ args => args
  | .foreach _ _ coll body => [coll, body]
  | .guarded body handlers cleanup => body :: handlers.map Handler.body ++ cleanup.toList
  | .throw exception => [exception]
  | .define _ _ _ metadataNode init => [metadataNode, init]
  | .assign target value | .hostPropertySet target value => [target, value]
  | .defStruct _ _ _ interfaces =>
    interfaces.flatMap fun implementation =>
      implementation.methods.map fun method => method.lambda.body
  | .hostNew cls args => cls :: args
  | .hostMethodCall target _ _ args => target :: args
  | .hostPropertyAccess target _ _ => [target]
  | .hostArrayGet array index | .hostArrayUnset array index => [array, index]
  | .hostArraySet array index value => [array, index, value]
  | .hostArrayPush array value => [array, value]
  | _ => []

def Shape.kindName {ν : Type} : Shape ν → String
  | .literal _ => "literal"
  | .quote _ => "quote"
  | .vector _ => "vector"
  | .map _ => "map"
  | .localVar .. => "local-var"
  | .globalVar .. => "global-var"
  | .hostVar _ => "host-var"
  | .hostClass _ => "host-class-name"
  | .call .. => "call"
  | .apply .. => "apply"
  | .branch .. => "if"
  | .block .. => "do"
  | .letIn .. => "let"
  | .loop .. => "loop"
  | .fn _ => "fn"
  | .recur .. => "recur"
  | .foreach .. => "foreach"
  | .guarded .. => "try"
  | .throw _ => "throw"
  | .define .. => "def"
  | .assign .. => "set!"
  | .defStruct .. => "defstruct"
  | .defInterface .. => "definterface"
  | .defException .. => "defexception"
  | .ns .. => "ns"
  | .inNs _ => "in-ns"
  | .hostNew .. => "host-new"
  | .hostMethodCall .. => "host-method-call"
  | .hostPropertyAccess .. => "host-property-access"
  | .hostPropertySet .. => "host-property-set"
  | .hostArrayGet .. => "host-array-get"
  | .hostArraySet .. => "host-array-set"
  | .hostArrayPush .. => "host-array-push"
  | .hostArrayUnset .. => "host-array-unset"

namespace Node

def scope : Node → Scope
  | .mk scope _ _ => scope

def span : Node → Option Span
  | .mk _ span _ => span

def shape : Node → Shape Node
  | .mk _ _ shape => shape

def children (node : Node) : List Node := node.shape.children

def kindName (node : Node) : String := node.shape.kindName

end Node

/-- The captured names as they are spelled outside the function. -/
def Lambda.captured {ν : Type} (lambda : Lambda ν) (scope : Scope) : List Symbol :=
  lambda.uses.map fun symbol => (scope.shadow? symbol).getD symbol

end LispFront
