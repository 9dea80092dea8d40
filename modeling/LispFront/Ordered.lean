/-! A finite map is the list of its entries in ascending key order, a finite set the list of its
members. Keys that compare equal are one key; inserting over a key replaces the key together with
its value. -/

namespace LispFront.Ordered

variable {κ ν : Type}

def insert (cmp : κ → κ → Ordering) (key : κ) (value : ν) : List (κ × ν) → List (κ × ν)
  | [] => [(key, value)]
  | entry :: rest =>
    match cmp key entry.1 with
    | .lt => (key, value) :: entry :: rest
    | .eq => (key, value) :: rest
    | .gt => entry :: insert cmp key value rest

def find? (cmp : κ → κ → Ordering) (key : κ) : List (κ × ν) → Option ν
  | [] => none
  | entry :: rest => if cmp key entry.1 = .eq then some entry.2 else find? cmp key rest

def erase (cmp : κ → κ → Ordering) (key : κ) (entries : List (κ × ν)) : List (κ × ν) :=
  entries.filter fun entry => cmp key entry.1 ≠ .eq

def ofList (cmp : κ → κ → Ordering) (pairs : List (κ × ν)) : List (κ × ν) :=
  pairs.foldl (fun entries pair => insert cmp pair.1 pair.2 entries) []

/-- Adds those entries of `extra` whose key `base` lacks. -/
def addMissing (cmp : κ → κ → Ordering) (base extra : List (κ × ν)) : List (κ × ν) :=
  extra.foldl (fun entries pair =>
    match find? cmp pair.1 entries with
    | some _ => entries
    | none => insert cmp pair.1 pair.2 entries) base

/-- On a shared key the map with more entries wins, the left one if they are as many. -/
def union (cmp : κ → κ → Ordering) (left right : List (κ × ν)) : List (κ × ν) :=
  if right.length ≤ left.length then addMissing cmp left right else addMissing cmp right left

def insertMember (cmp : κ → κ → Ordering) (key : κ) : List κ → List κ
  | [] => [key]
  | member :: rest =>
    match cmp key member with
    | .lt => key :: member :: rest
    | .eq => key :: rest
    | .gt => member :: insertMember cmp key rest

def hasMember (cmp : κ → κ → Ordering) (key : κ) (members : List κ) : Bool :=
  members.any fun member => cmp key member = .eq

/-- Keys stand in strictly ascending order. -/
def Ascending (cmp : κ → κ → Ordering) (entries : List (κ × ν)) : Prop :=
  entries.Pairwise fun a b => cmp a.1 b.1 = .lt

end LispFront.Ordered
