import LispFront.Form.Basic
import LispFront.Ordered

/-! Forms are ordered by kind and then by content; sequences and maps compare item by item, and a
shorter one comes before its extensions. Neither the order nor equality sees spans or metadata. Maps
and metadata keep their keys in this order. -/

namespace LispFront

namespace Form

/-- The place of a form's kind in the order. -/
def rank : Form → Nat
  | .nil => 0
  | .bool _ => 1
  | .int _ => 2
  | .float _ => 3
  | .str _ => 4
  | .keyword _ => 5
  | .symbol .. => 6
  | .list .. => 7
  | .vector .. => 8
  | .map .. => 9

mutual
def cmp : Form → Form → Ordering
  | .bool a, .bool b => compare a b
  | .int a, .int b => compare a b
  | .float a, .float b => a.cmp b
  | .str a, .str b => compare a b
  | .keyword a, .keyword b => a.cmp b
  | .symbol a _ _, .symbol b _ _ => a.cmp b
  | .list a _ _, .list b _ _ => cmpItems a b
  | .vector a _ _, .vector b _ _ => cmpItems a b
  | .map a _ _, .map b _ _ => cmpEntries a b
  | a, b => compare a.rank b.rank

def cmpItems : List Form → List Form → Ordering
  | [], [] => .eq
  | [], _ :: _ => .lt
  | _ :: _, [] => .gt
  | a :: as, b :: bs => (a.cmp b).then (cmpItems as bs)

def cmpEntries : List (Form × Form) → List (Form × Form) → Ordering
  | [], [] => .eq
  | [], _ :: _ => .lt
  | _ :: _, [] => .gt
  | (k, v) :: as, (l, w) :: bs => ((k.cmp l).then (v.cmp w)).then (cmpEntries as bs)
end

mutual
/-- Equality of content. -/
def same : Form → Form → Bool
  | .nil, .nil => true
  | .bool a, .bool b => a == b
  | .int a, .int b => a == b
  | .float a, .float b => a.rank == b.rank
  | .str a, .str b => a == b
  | .keyword a, .keyword b => a == b
  | .symbol a _ _, .symbol b _ _ => a == b
  | .list a _ _, .list b _ _ => sameItems a b
  | .vector a _ _, .vector b _ _ => sameItems a b
  | .map a _ _, .map b _ _ => sameEntries a b
  | _, _ => false

def sameItems : List Form → List Form → Bool
  | [], [] => true
  | a :: as, b :: bs => a.same b && sameItems as bs
  | _, _ => false

def sameEntries : List (Form × Form) → List (Form × Form) → Bool
  | [], [] => true
  | (k, v) :: as, (l, w) :: bs => k.same l && v.same w && sameEntries as bs
  | _, _ => false
end

end Form

namespace Entries

def insert (key value : Form) (entries : Entries) : Entries :=
  Ordered.insert Form.cmp key value entries

def find? (key : Form) (entries : Entries) : Option Form :=
  Ordered.find? Form.cmp key entries

def ofList (pairs : List (Form × Form)) : Entries :=
  Ordered.ofList Form.cmp pairs

/-- On a shared key the larger map wins, the left one if they are of one size. -/
def union (left right : Entries) : Entries :=
  Ordered.union Form.cmp left right

/-- The value under a plain keyword. -/
def keyword? (base : String) (entries : Entries) : Option Form :=
  find? (.plainKeyword base) entries

end Entries

end LispFront
