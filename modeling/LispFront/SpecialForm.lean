import LispFront.Name

/-! Lists whose head is one of these names have rules of their own. Plain names belong to the
language; names in the host namespace reach the host platform. -/

namespace LispFront

/-- The namespace of host functions, constants and special forms. -/
def hostNamespace : String := "php"

inductive SpecialForm where
  | define
  | fn
  | letIn
  | loop
  | block
  | branch
  | recur
  | quote
  | apply
  | guarded
  | throw
  | assign
  | foreach
  | ns
  | inNs
  | defStruct
  | defInterface
  | defException
  | hostNew
  | hostMember
  | hostStaticMember
  | hostPropertySet
  | hostArrayGet
  | hostArraySet
  | hostArrayPush
  | hostArrayUnset
  deriving DecidableEq, Repr

namespace SpecialForm

/-- The name as it is written at the head of a list. -/
def name : SpecialForm → Name
  | .define => .plain "def"
  | .fn => .plain "fn"
  | .letIn => .plain "let"
  | .loop => .plain "loop"
  | .block => .plain "do"
  | .branch => .plain "if"
  | .recur => .plain "recur"
  | .quote => .plain "quote"
  | .apply => .plain "apply"
  | .guarded => .plain "try"
  | .throw => .plain "throw"
  | .assign => .plain "set!"
  | .foreach => .plain "foreach"
  | .ns => .plain "ns"
  | .inNs => .plain "in-ns"
  | .defStruct => .plain "defstruct*"
  | .defInterface => .plain "definterface*"
  | .defException => .plain "defexception*"
  | .hostNew => .qualified hostNamespace "new"
  | .hostMember => .qualified hostNamespace "->"
  | .hostStaticMember => .qualified hostNamespace "::"
  | .hostPropertySet => .qualified hostNamespace "oset"
  | .hostArrayGet => .qualified hostNamespace "aget"
  | .hostArraySet => .qualified hostNamespace "aset"
  | .hostArrayPush => .qualified hostNamespace "apush"
  | .hostArrayUnset => .qualified hostNamespace "aunset"

def text (form : SpecialForm) : String := form.name.text

def all : List SpecialForm :=
  [.define, .fn, .letIn, .loop, .block, .branch, .recur, .quote, .apply, .guarded, .throw,
   .assign, .foreach, .ns, .inNs, .defStruct, .defInterface, .defException, .hostNew,
   .hostMember, .hostStaticMember, .hostPropertySet, .hostArrayGet, .hostArraySet,
   .hostArrayPush, .hostArrayUnset]

def ofName? (name : Name) : Option SpecialForm :=
  all.find? fun form => form.name = name

/-- What a wrong number of arguments is answered with. Only `def` tells how many
there were. -/
def countText (got : Nat) : SpecialForm → String
  | .define => s!"Two or three arguments are required for 'def. Got {got}"
  | .fn => "'fn requires at least one argument"
  | .letIn => "At least one argument is required for 'let"
  | .loop => "At least one argument is required for 'loop"
  | .branch => "'if requires two or three arguments"
  | .quote => "Exactly one argument is required for 'quote"
  | .apply => "At least two arguments are required for 'apply"
  | .throw => "'throw requires exactly one argument"
  | .assign => "Exactly two arguments are required for 'set!"
  | .foreach => "'foreach requires at least one argument"
  | .ns => "'ns requires at least one argument"
  | .inNs => "Exactly one argument is required for 'in-ns"
  | .defStruct => "At least two arguments are required for 'defstruct*"
  | .defInterface => "At least one argument is required for 'definterface*"
  | .defException => "Exactly one argument is required for 'defexception*"
  | .hostNew => "At least one argument is required for 'php/new"
  | .hostMember => "Exactly two arguments are expected for 'php/->"
  | .hostStaticMember => "Exactly two arguments are expected for 'php/::"
  | .hostPropertySet => "Exactly two arguments are required for 'php/oset"
  | .hostArrayGet => "Exactly two arguments are required for 'php/aget"
  | .hostArraySet => "Exactly three arguments are required for 'php/aset"
  | .hostArrayPush => "Exactly two arguments are required for 'php/apush"
  | .hostArrayUnset => "Exactly two arguments are required for 'php/aunset"
  | form => "Wrong number of arguments for '" ++ form.text

end SpecialForm

end LispFront
