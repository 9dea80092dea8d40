import LispFront.Fault
import LispFront.Form.Order
import LispFront.Settings.Basic
import LispFront.Table

/-! For each namespace the registry holds its definitions, of which analysis knows only the
metadata, the methods of its interfaces, and what it calls the things of others. A namespace comes
into being when it is first written to. -/

namespace LispFront

structure Definition where
  ns : String
  base : String
  metadata : Entries
  deriving Repr

namespace Definition

def fullName (definition : Definition) : String := definition.ns ++ "/" ++ definition.base

def metadata? (definition : Definition) (key : String) : Option Form :=
  definition.metadata.keyword? key

/-- A flag is set when its key has a value that counts as true. -/
def flag (definition : Definition) (key : String) : Bool :=
  (definition.metadata? key).any Form.isTruthy

def isMacro (definition : Definition) : Bool := definition.flag "macro"

def isInline (definition : Definition) : Bool := definition.flag "inline"

/-- Whether an arity check guards inline expansion; the value does not matter. -/
def hasInlineArity (definition : Definition) : Bool :=
  (definition.metadata? "inline-arity").isSome

def isPrivate (definition : Definition) : Bool := definition.flag "private"

def doc? (definition : Definition) : Option String :=
  match definition.metadata? "doc" with
  | some (.str text) => some text
  | _ => none

end Definition

structure Namespace where
  definitions : Table Definition := {}
  classAliases : Table String := {}
  namespaceAliases : Table String := {}
  /-- The namespace that a plain name is taken from. -/
  refers : Table String := {}
  interfaces : Table (List String) := {}
  deriving Repr

structure Registry where
  current : String
  namespaces : Table Namespace
  allowRedefinition : Bool := false
  deriving Repr

namespace Registry

/-- A registry with one empty namespace, which is the current one. -/
def start (ns : String) : Registry :=
  { current := ns, namespaces := Table.insert {} ns {} }

def has (registry : Registry) (ns : String) : Bool := registry.namespaces.contains ns

/-- Changes one namespace, after creating it if need be. -/
def update (ns : String) (change : Namespace → Namespace) (registry : Registry) : Registry :=
  { registry with
    namespaces := registry.namespaces.insert ns (change ((registry.namespaces.find? ns).getD {})) }

def ofSettings (settings : Settings) : Registry :=
  { (start settings.defaultNamespace).update settings.coreNamespace id with
    allowRedefinition := settings.allowRedefinition }

def setCurrent (ns : String) (registry : Registry) : Registry :=
  { registry.update ns id with current := ns }

def definition? (registry : Registry) (ns base : String) : Option Definition :=
  (registry.namespaces.find? ns).bind fun space => space.definitions.find? base

/-- The registry with a new definition, and the one it replaced. -/
def addDefinition (ns base : String) (metadata : Entries) (registry : Registry) :
    Except Fault (Option Definition × Registry) :=
  let previous := registry.definition? ns base
  if previous.isSome && !registry.allowRedefinition then
    .error (.duplicateDefinition ns base)
  else
    .ok (previous, registry.update ns fun space =>
      { space with definitions := space.definitions.insert base { ns, base, metadata } })

/-- Takes a definition back: the earlier one returns, or none stays. -/
def restoreDefinition (ns base : String) (previous : Option Definition) (registry : Registry) :
    Registry :=
  registry.update ns fun space =>
    { space with
      definitions := match previous with
        | some definition => space.definitions.insert base definition
        | none => space.definitions.erase base }

/-- Lets a short name stand for a host class in one namespace. -/
def addClassAlias (ns short cls : String) (registry : Registry) : Registry :=
  registry.update ns fun space => { space with classAliases := space.classAliases.insert short cls }

def classAlias? (registry : Registry) (ns short : String) : Option String :=
  (registry.namespaces.find? ns).bind fun space => space.classAliases.find? short

/-- Lets a short name stand for another namespace in one namespace. -/
def addNamespaceAlias (ns short target : String) (registry : Registry) : Registry :=
  registry.update ns fun space =>
    { space with namespaceAliases := space.namespaceAliases.insert short target }

def namespaceAlias? (registry : Registry) (ns short : String) : Option String :=
  (registry.namespaces.find? ns).bind fun space => space.namespaceAliases.find? short

/-- Lets a plain name of one namespace mean that of another. -/
def addRefer (ns base source : String) (registry : Registry) : Registry :=
  registry.update ns fun space => { space with refers := space.refers.insert base source }

def refer? (registry : Registry) (ns base : String) : Option String :=
  (registry.namespaces.find? ns).bind fun space => space.refers.find? base

def addInterface (ns base : String) (methods : List String) (registry : Registry) : Registry :=
  registry.update ns fun space => { space with interfaces := space.interfaces.insert base methods }

def interface? (registry : Registry) (ns base : String) : Option (List String) :=
  (registry.namespaces.find? ns).bind fun space => space.interfaces.find? base

end Registry

end LispFront
