import LispFront.Proofs.Prompts

/-! `Form.mentions` looks for a symbol anywhere in a form, metadata included. The forms that rules
make of other forms mention what those mention, and beyond that only the few names that lowering
writes (`Unwritten`). -/

namespace LispFront

mutual
/-- Whether a symbol of a wanted name stands in the form. -/
def Form.mentions (wanted : Name → Bool) : Form → Bool
  | .symbol name _ metadata => wanted name || mentionsEntries wanted metadata
  | .list items _ metadata | .vector items _ metadata =>
    mentionsItems wanted items || mentionsEntries wanted metadata
  | .map entries _ metadata =>
    mentionsEntries wanted entries || mentionsEntries wanted metadata
  | _ => false

def Form.mentionsItems (wanted : Name → Bool) : List Form → Bool
  | [] => false
  | item :: rest => item.mentions wanted || mentionsItems wanted rest

def Form.mentionsEntries (wanted : Name → Bool) : List (Form × Form) → Bool
  | [] => false
  | (key, value) :: rest =>
    key.mentions wanted || value.mentions wanted || mentionsEntries wanted rest
end

def Form.Avoids (wanted : Name → Bool) (form : Form) : Prop := form.mentions wanted = false

abbrev Entries.Avoids (wanted : Name → Bool) (entries : Entries) : Prop :=
  entries.All (Form.Avoids wanted)

variable {wanted : Name → Bool}

namespace Form

theorem mentionsItems_eq_false {items : List Form} :
    mentionsItems wanted items = false ↔ ∀ item ∈ items, item.Avoids wanted := by
  induction items with
  | nil => simp [mentionsItems]
  | cons item rest ih => simp [mentionsItems, ih, Avoids]

theorem mentionsEntries_eq_false {entries : List (Form × Form)} :
    mentionsEntries wanted entries = false ↔ Entries.Avoids wanted entries := by
  unfold Entries.Avoids Entries.All
  induction entries with
  | nil => simp [mentionsEntries]
  | cons entry rest ih => simp [mentionsEntries, ih, Avoids, and_assoc]

variable {name : Name} {items : List Form} {entries metadata : List (Form × Form)}
variable {span : Option Span}

theorem avoids_symbol :
    (Form.symbol name span metadata).Avoids wanted ↔
      wanted name = false ∧ Entries.Avoids wanted metadata := by
  simp [Avoids, mentions, mentionsEntries_eq_false]

theorem avoids_list :
    (Form.list items span metadata).Avoids wanted ↔
      (∀ item ∈ items, item.Avoids wanted) ∧ Entries.Avoids wanted metadata := by
  rw [Avoids, mentions, Bool.or_eq_false_iff, mentionsItems_eq_false, mentionsEntries_eq_false]

theorem avoids_vector :
    (Form.vector items span metadata).Avoids wanted ↔
      (∀ item ∈ items, item.Avoids wanted) ∧ Entries.Avoids wanted metadata := by
  rw [Avoids, mentions, Bool.or_eq_false_iff, mentionsItems_eq_false, mentionsEntries_eq_false]

theorem avoids_map :
    (Form.map entries span metadata).Avoids wanted ↔
      Entries.Avoids wanted entries ∧ Entries.Avoids wanted metadata := by
  rw [Avoids, mentions, Bool.or_eq_false_iff, mentionsEntries_eq_false, mentionsEntries_eq_false]

end Form

theorem Entries.avoids_nil : Entries.Avoids wanted [] := List.forall_mem_nil _

/-- What a form does not mention is not mentioned by its parts. -/
theorem Form.inherited_avoids (wanted : Name → Bool) : Form.Inherited (Form.Avoids wanted) where
  scalar form bare := by
    cases form with
    | symbol | list | vector | map => contradiction
    | _ => rfl
  symbol avoids := (Form.avoids_symbol.mp avoids).2
  list avoids := (Form.avoids_list.mp avoids).1
  vector avoids := (Form.avoids_vector.mp avoids).1
  map avoids := (Form.avoids_map.mp avoids).1
  entries avoid := Form.avoids_map.mpr ⟨avoid, Entries.avoids_nil⟩

/-- Whether a name is this one. -/
def Name.only (name : Name) : Name → Bool := fun other => decide (other = name)

mutual
/-- What a form mentions of several wanted names is one of them. -/
theorem Form.mentions_only : ∀ form : Form, form.mentions wanted = true →
    ∃ name, wanted name = true ∧ form.mentions name.only = true
  | .symbol name _ metadata => by
    simp only [Form.mentions, Bool.or_eq_true]
    rintro (isWanted | inside)
    · exact ⟨name, isWanted, .inl (decide_eq_true rfl)⟩
    · obtain ⟨name, isWanted, found⟩ := Form.mentionsEntries_only metadata inside
      exact ⟨name, isWanted, .inr found⟩
  | .list items _ metadata => by
    simp only [Form.mentions, Bool.or_eq_true]
    rintro (inside | inside)
    · obtain ⟨name, isWanted, found⟩ := Form.mentionsItems_only items inside
      exact ⟨name, isWanted, .inl found⟩
    · obtain ⟨name, isWanted, found⟩ := Form.mentionsEntries_only metadata inside
      exact ⟨name, isWanted, .inr found⟩
  | .vector items _ metadata => by
    simp only [Form.mentions, Bool.or_eq_true]
    rintro (inside | inside)
    · obtain ⟨name, isWanted, found⟩ := Form.mentionsItems_only items inside
      exact ⟨name, isWanted, .inl found⟩
    · obtain ⟨name, isWanted, found⟩ := Form.mentionsEntries_only metadata inside
      exact ⟨name, isWanted, .inr found⟩
  | .map entries _ metadata => by
    simp only [Form.mentions, Bool.or_eq_true]
    rintro (inside | inside)
    · obtain ⟨name, isWanted, found⟩ := Form.mentionsEntries_only entries inside
      exact ⟨name, isWanted, .inl found⟩
    · obtain ⟨name, isWanted, found⟩ := Form.mentionsEntries_only metadata inside
      exact ⟨name, isWanted, .inr found⟩
  | .nil | .bool _ | .int _ | .float _ | .str _ | .keyword _ => by simp [Form.mentions]

theorem Form.mentionsItems_only : ∀ items : List Form, Form.mentionsItems wanted items = true →
    ∃ name, wanted name = true ∧ Form.mentionsItems name.only items = true
  | [] => by simp [Form.mentionsItems]
  | item :: rest => by
    simp only [Form.mentionsItems, Bool.or_eq_true]
    rintro (inside | later)
    · obtain ⟨name, isWanted, found⟩ := Form.mentions_only item inside
      exact ⟨name, isWanted, .inl found⟩
    · obtain ⟨name, isWanted, found⟩ := Form.mentionsItems_only rest later
      exact ⟨name, isWanted, .inr found⟩

theorem Form.mentionsEntries_only : ∀ entries : List (Form × Form),
    Form.mentionsEntries wanted entries = true →
    ∃ name, wanted name = true ∧ Form.mentionsEntries name.only entries = true
  | [] => by simp [Form.mentionsEntries]
  | (key, value) :: rest => by
    simp only [Form.mentionsEntries, Bool.or_eq_true]
    rintro ((inside | inside) | later)
    · obtain ⟨name, isWanted, found⟩ := Form.mentions_only key inside
      exact ⟨name, isWanted, .inl (.inl found)⟩
    · obtain ⟨name, isWanted, found⟩ := Form.mentions_only value inside
      exact ⟨name, isWanted, .inl (.inr found)⟩
    · obtain ⟨name, isWanted, found⟩ := Form.mentionsEntries_only rest later
      exact ⟨name, isWanted, .inr found⟩
end

/-- None of the names that lowering writes is wanted. -/
structure Unwritten (wanted : Name → Bool) : Prop where
  letIn : wanted (.plain "let") = false
  loop : wanted (.plain "loop") = false
  qualified : ∀ ns base, wanted (.qualified ns base) = false
  temp : ∀ number, wanted (NameSupply.numbered NameSupply.tempStem number).name = false

theorem Form.avoids_binder {base : String} {bindings body : List Form} {span : Option Span}
    (own : wanted (.plain base) = false) (bindingsAvoid : ∀ form ∈ bindings, form.Avoids wanted)
    (bodyAvoids : ∀ form ∈ body, form.Avoids wanted) :
    (Form.list (.plainSymbol base :: .vector bindings none [] :: body) span []).Avoids wanted := by
  have head : (Form.plainSymbol base).Avoids wanted :=
    Form.avoids_symbol.mpr ⟨own, Entries.avoids_nil⟩
  have vector : (Form.vector bindings none []).Avoids wanted :=
    Form.avoids_vector.mpr ⟨bindingsAvoid, Entries.avoids_nil⟩
  refine Form.avoids_list.mpr ⟨?_, Entries.avoids_nil⟩
  exact List.forall_mem_cons.mpr ⟨head, List.forall_mem_cons.mpr ⟨vector, bodyAvoids⟩⟩

/-- What the parts of a form do not mention is not mentioned by what lowering makes of
them either. -/
theorem Unwritten.hereditary (unwritten : Unwritten wanted) (core : String) :
    Form.Hereditary core (Form.Avoids wanted) where
  toInherited := Form.inherited_avoids wanted
  fresh symbol temp := by
    obtain ⟨number, name, metadata⟩ := temp
    refine Form.avoids_symbol.mpr ⟨?_, ?_⟩
    · rw [name]
      exact unwritten.temp number
    · rw [metadata]
      exact Entries.avoids_nil
  accessor {base args span} avoid := by
    have head : (Form.symbol (.qualified core base) span []).Avoids wanted :=
      Form.avoids_symbol.mpr ⟨unwritten.qualified core base, Entries.avoids_nil⟩
    exact Form.avoids_list.mpr ⟨List.forall_mem_cons.mpr ⟨head, avoid⟩, Entries.avoids_nil⟩
  letForm := Form.avoids_binder unwritten.letIn
  loopForm := Form.avoids_binder unwritten.loop

end LispFront
