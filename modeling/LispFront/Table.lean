/-! A table maps texts to values and keeps the order in which its keys first came in. Replacing a
value leaves its key in place; erasing a key closes the gap. -/

namespace LispFront

structure Table (α : Type) where
  entries : List (String × α)
  distinct : (entries.map Prod.fst).Nodup
  deriving Repr

namespace Table

variable {α : Type}

instance : EmptyCollection (Table α) := ⟨⟨[], .nil⟩⟩

def find? (table : Table α) (key : String) : Option α :=
  table.entries.lookup key

def contains (table : Table α) (key : String) : Bool :=
  (table.find? key).isSome

/-- Replaces the first entry of the key, or adds one at the end. -/
def put (key : String) (value : α) : List (String × α) → List (String × α)
  | [] => [(key, value)]
  | entry :: rest =>
    if entry.1 = key then (key, value) :: rest else entry :: put key value rest

theorem mem_keys_put {key name : String} {value : α} {entries : List (String × α)}
    (member : name ∈ (put key value entries).map Prod.fst) :
    name = key ∨ name ∈ entries.map Prod.fst := by
  induction entries with
  | nil => exact .inl (List.mem_singleton.mp member)
  | cons entry rest ih =>
    rw [put] at member
    split at member
    · exact (List.mem_cons.mp member).imp_right (List.mem_cons_of_mem _)
    · rcases List.mem_cons.mp member with rfl | later
      · exact .inr List.mem_cons_self
      · exact (ih later).imp_right (List.mem_cons_of_mem _)

theorem distinct_put {key : String} {value : α} {entries : List (String × α)}
    (distinct : (entries.map Prod.fst).Nodup) :
    ((put key value entries).map Prod.fst).Nodup := by
  induction entries with
  | nil => exact List.nodup_cons.mpr ⟨List.not_mem_nil, .nil⟩
  | cons entry rest ih =>
    obtain ⟨absent, later⟩ := List.nodup_cons.mp distinct
    rw [put]
    split
    next here => exact List.nodup_cons.mpr ⟨here ▸ absent, later⟩
    next other =>
      refine List.nodup_cons.mpr ⟨fun member => ?_, ih later⟩
      rcases mem_keys_put member with same | again
      · exact other same
      · exact absent again

def insert (table : Table α) (key : String) (value : α) : Table α where
  entries := put key value table.entries
  distinct := distinct_put table.distinct

def erase (table : Table α) (key : String) : Table α where
  entries := table.entries.filter fun entry => entry.1 ≠ key
  distinct := table.distinct.sublist (List.filter_sublist.map Prod.fst)

end Table

end LispFront
