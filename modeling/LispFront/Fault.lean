import LispFront.Expansion.Callable
import LispFront.Form.Basic
import LispFront.SpecialForm

/-! A fault is what is wrong with a form; its wording is `Fault.message` and nowhere else. An error
is a fault with the place it is reported at and, when another party failed first, what that party
said. -/

namespace LispFront

inductive Fault where
  /-- Stated in words by a caller. -/
  | reported (message : String)
  | argumentCount (form : SpecialForm) (got : Nat)
  | unnamedDefinition (form : SpecialForm)
  -- Names
  | unresolvedSymbol (name : Name)
  | unresolvedException (name : Name)
  | unresolvedInterface (name : Name)
  | privateDefinition (fullName : String)
  | duplicateDefinition (ns base : String)
  | reservedSegment (segment : String)
  | invalidSegment
  -- Binding
  | bindingsNotVector
  | oddBindings
  | notDestructurable (kind : String)
  | crowdedRest
  | parametersNotVector
  | headerNotVector
  | headerSize
  -- Control
  | recurOutsideFrame
  | recurCount (expected got : Nat)
  | strayTryForm
  | malformedCatch
  -- Definitions
  | nestedDefinition
  | malformedMetadata
  | assignNotSymbol
  | assignNotGlobal
  | interfaceMethodNotList
  | interfaceMethodUnnamed
  | interfaceMethodNoInstance (method : String)
  | interfaceParameterNotSymbol
  | interfaceMethodTail (method : String)
  | fieldsNotVector
  | fieldNotSymbol
  | strayStructMethod
  | strayStructForm (kind : String)
  | structMethodUnnamed
  | undeclaredMethod (interface method : String)
  | missingMethods (interface : String) (methods : List String)
  -- Namespaces
  | namespaceNotSymbol
  | malformedClause
  | unknownClause (kind : String)
  | useNotSymbol
  | useAliasNotSymbol
  | requireNotSymbol
  | requireOption
  | referNotSymbol
  | requireFileNotString
  | inNamespaceName
  -- Host access
  | memberCallUnnamed (form : SpecialForm)
  | memberKind (form : SpecialForm)
  | notPropertyAccess
  -- Expansion
  | hostCall (callable : Callable) (error : HostError)
  | nestingLimit
  deriving DecidableEq, Repr

def Fault.message : Fault → String
  | .reported message => message
  | .argumentCount form got => form.countText got
  | .unnamedDefinition form => "First argument of '" ++ form.text ++ " must be a Symbol."
  | .unresolvedSymbol name => "Cannot resolve symbol '" ++ name.text ++ "'"
  | .unresolvedException name => "Cannot resolve exception type '" ++ name.text ++ "'"
  | .unresolvedInterface name => "Cannot resolve interface '" ++ name.text ++ "'"
  | .privateDefinition fullName => "Cannot access private definition '" ++ fullName ++ "'"
  | .duplicateDefinition ns base =>
    "Symbol '" ++ base ++ "' is already defined in namespace '" ++ ns ++ "'"
  | .reservedSegment segment =>
    "The namespace is not valid. The part '" ++ segment ++
      "' can not be used because it is a reserved keyword."
  | .invalidSegment =>
    "The namespace is not valid. A valid namespace name starts with a letter or underscore, " ++
      "followed by any number of letters, numbers, or dashes. Elements are separated by a dot."
  | .bindingsNotVector => "Binding parameter must be a vector"
  | .oddBindings => "Bindings must be a even number of parameters"
  | .notDestructurable kind => "Cannot destructure " ++ kind
  | .crowdedRest => "Unsupported binding form, only one symbol can follow the & parameter"
  | .parametersNotVector => "Second argument of 'fn must be a vector"
  | .headerNotVector => "First argument of 'foreach must be a vector"
  | .headerSize => "Vector of 'foreach must have exactly two or three elements"
  | .recurOutsideFrame => "Can't call 'recur here"
  | .recurCount expected got =>
    s!"Wrong number of arguments for 'recur. Expected: {expected} got: {got}"
  | .strayTryForm => "Invalid 'try form"
  | .malformedCatch => "First argument of 'catch must be a class name and second a Symbol"
  | .nestedDefinition => "'def inside of a 'def is forbidden"
  | .malformedMetadata => "Metadata must be a String, Keyword or Map"
  | .assignNotSymbol => "First argument of 'set! must be a Symbol"
  | .assignNotGlobal => "Only global definitions can be changed with 'set!"
  | .interfaceMethodNotList => "Interface methods must be Lists"
  | .interfaceMethodUnnamed => "Interface method must start with a Symbol"
  | .interfaceMethodNoInstance method =>
    "Interface method '" ++ method ++
      "' needs an argument vector starting with the instance argument"
  | .interfaceParameterNotSymbol => "Interface method arguments must be Symbols"
  | .interfaceMethodTail method => "Invalid declaration of interface method '" ++ method ++ "'"
  | .fieldsNotVector => "Second argument of 'defstruct* must be a vector"
  | .fieldNotSymbol => "Struct fields must be Symbols"
  | .strayStructMethod => "Struct methods must follow an interface name"
  | .strayStructForm kind => "Unexpected " ++ kind ++ " in 'defstruct*"
  | .structMethodUnnamed => "Struct method must start with a Symbol"
  | .undeclaredMethod interface method =>
    "The interface '" ++ interface ++ "' does not declare a method '" ++ method ++ "'"
  | .missingMethods interface methods =>
    "Missing implementation of " ++
      ", ".intercalate (methods.map fun method => "'" ++ method ++ "'") ++
      " for interface '" ++ interface ++ "'"
  | .namespaceNotSymbol => "First argument of 'ns must be a Symbol"
  | .malformedClause => "Invalid 'ns clause"
  | .unknownClause kind => "Unexpected 'ns clause :" ++ kind
  | .useNotSymbol => "Arguments of :use must be Symbols"
  | .useAliasNotSymbol => "Alias of :use must be a Symbol"
  | .requireNotSymbol => "First argument of :require must be a Symbol"
  | .requireOption => "Options of :require must be :as Symbol or :refer Vector"
  | .referNotSymbol => "Values of :refer must be Symbols"
  | .requireFileNotString => "Arguments of :require-file must be Strings"
  | .inNamespaceName => "First argument of 'in-ns must be a Symbol or a String"
  | .memberCallUnnamed form =>
    "The method call of '" ++ form.text ++ " must start with a Symbol"
  | .memberKind form => "Second argument of '" ++ form.text ++ " must be a List or a Symbol"
  | .notPropertyAccess => "First argument of 'php/oset must be a property access"
  | .hostCall callable error =>
    let attempt := match callable.kind with
      | .macroBody => "expanding macro"
      | .inlineBody => "expanding inline function of"
      | .inlineArity => "checking inline arity of"
    "Error in " ++ attempt ++ " \"" ++ callable.fullName ++ "\": " ++ error.message
  | .nestingLimit => "Forms are nested too deeply"

structure AnalysisError where
  fault : Fault
  span : Option Span := none
  cause : Option String := none
  deriving DecidableEq, Repr

namespace AnalysisError

def message (error : AnalysisError) : String := error.fault.message

/-- The message, with the place when it is known. -/
def describe (error : AnalysisError) : String :=
  match error.span with
  | some span => error.message ++ " at " ++ span.describe
  | none => error.message

/-- Reports the fault at a form. -/
def atForm (fault : Fault) (form : Form) : AnalysisError := { fault, span := form.span }

def withCause (cause : String) (error : AnalysisError) : AnalysisError :=
  { error with cause := some cause }

/-- Fills in a place only when none is recorded yet. -/
def orSpan (span : Option Span) (error : AnalysisError) : AnalysisError :=
  { error with span := error.span.or span }

end AnalysisError

end LispFront
