import LispFront.Binary64
import LispFront.Name
import LispFront.Span

/-! Forms are the data a reader produces and analysis consumes. Symbols, lists, vectors and maps
also carry the span they were read from and a map of metadata; scalars and keywords carry
neither. -/

namespace LispFront

inductive Form where
  | nil
  | bool (value : Bool)
  | int (value : Int)
  | float (value : Binary64)
  | str (text : String)
  | keyword (name : Name)
  | symbol (name : Name) (span : Option Span) (metadata : List (Form × Form))
  | list (items : List Form) (span : Option Span) (metadata : List (Form × Form))
  | vector (items : List Form) (span : Option Span) (metadata : List (Form × Form))
  | map (entries : List (Form × Form)) (span : Option Span) (metadata : List (Form × Form))
  deriving Repr

instance : Inhabited Form := ⟨.nil⟩

/-- The entries of a map form or of metadata, in ascending key order. -/
abbrev Entries := List (Form × Form)

/-- A symbol on its own, as binders and tree nodes hold it. -/
structure Symbol where
  name : Name
  span : Option Span := none
  metadata : Entries := []
  deriving Repr

namespace Symbol

def plain (base : String) : Symbol := { name := .plain base }

def base (symbol : Symbol) : String := symbol.name.base

def ns (symbol : Symbol) : Option String := symbol.name.ns

def isQualified (symbol : Symbol) : Bool := symbol.name.isQualified

def text (symbol : Symbol) : String := symbol.name.text

def cmp (a b : Symbol) : Ordering := a.name.cmp b.name

def form (symbol : Symbol) : Form := .symbol symbol.name symbol.span symbol.metadata

end Symbol

namespace Form

def plainSymbol (base : String) : Form := .symbol (.plain base) none []

def plainKeyword (base : String) : Form := .keyword (.plain base)

def symbol? : Form → Option Symbol
  | .symbol name span metadata => some { name, span, metadata }
  | _ => none

/-- A symbol without a namespace. -/
def plainSymbol? (form : Form) : Option Symbol :=
  form.symbol?.filter fun symbol => !symbol.isQualified

/-- A symbol without a namespace and with exactly this base. -/
def isNamed (base : String) : Form → Bool
  | .symbol name _ _ => name == .plain base
  | _ => false

/-- A keyword without a namespace and with exactly this base. -/
def isKeyword (base : String) : Form → Bool
  | .keyword name => name == .plain base
  | _ => false

def span : Form → Option Span
  | .symbol _ span _ | .list _ span _ | .vector _ span _ | .map _ span _ => span
  | _ => none

def withSpan (span : Option Span) : Form → Form
  | .symbol name _ metadata => .symbol name span metadata
  | .list items _ metadata => .list items span metadata
  | .vector items _ metadata => .vector items span metadata
  | .map entries _ metadata => .map entries span metadata
  | form => form

def metadata? : Form → Option Entries
  | .symbol _ _ metadata | .list _ _ metadata | .vector _ _ metadata | .map _ _ metadata =>
    some metadata
  | _ => none

/-- All but nil and false count as true. -/
def isTruthy : Form → Bool
  | .nil | .bool false => false
  | _ => true

def kindName : Form → String
  | .nil => "nil"
  | .bool _ => "boolean"
  | .int _ => "integer"
  | .float _ => "float"
  | .str _ => "string"
  | .keyword _ => "keyword"
  | .symbol .. => "symbol"
  | .list .. => "list"
  | .vector .. => "vector"
  | .map .. => "map"

mutual
/-- How deep forms are nested, counting the metadata of symbols. -/
def depth : Form → Nat
  | .symbol _ _ metadata => depthEntries metadata + 1
  | .list items _ _ | .vector items _ _ => depthItems items + 1
  | .map entries _ _ => depthEntries entries + 1
  | _ => 1

def depthItems : List Form → Nat
  | [] => 0
  | item :: rest => max item.depth (depthItems rest)

def depthEntries : List (Form × Form) → Nat
  | [] => 0
  | (key, value) :: rest => max (max key.depth value.depth) (depthEntries rest)
end

end Form

end LispFront
