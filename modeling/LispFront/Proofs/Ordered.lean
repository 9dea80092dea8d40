import LispFront.Form.Basic
import LispFront.Ordered

/-! Inserting and erasing change exactly one key, whether or not the list is in order, and a union
has the keys of both lists. What is made by inserting is in order, and a list that is in order is
made again from its own entries. Two keys that compare equal are one key; for symbols that means the
same name. -/

namespace LispFront

open Std (TransCmp OrientedCmp ReflCmp)

theorem Name.cmp_eq_iff (a b : Name) : a.cmp b = .eq ↔ a = b := by
  cases a
  cases b
  simp only [Name.cmp, Ordering.then_eq_eq, Std.compare_eq_iff_eq, Name.mk.injEq]

theorem Symbol.cmp_eq_iff (a b : Symbol) : a.cmp b = .eq ↔ a.name = b.name :=
  Name.cmp_eq_iff a.name b.name

instance : TransCmp Name.cmp :=
  inferInstanceAs (TransCmp (compareLex (compareOn Name.ns) (compareOn Name.base)))

instance : TransCmp Symbol.cmp :=
  have names : TransCmp Name.cmp := inferInstance
  { eq_swap := names.eq_swap, isLE_trans := names.isLE_trans }

namespace Ordered

variable {κ ν : Type} {cmp : κ → κ → Ordering}

theorem erase_cons (key : κ) (entry : κ × ν) (rest : List (κ × ν)) :
    erase cmp key (entry :: rest) =
      if cmp key entry.1 = .eq then erase cmp key rest else entry :: erase cmp key rest := by
  by_cases atKey : cmp key entry.1 = .eq <;> simp [erase, atKey]

/-- A member is the inserted key or was there before. -/
theorem mem_insertMember {key member : κ} {members : List κ}
    (found : member ∈ insertMember cmp key members) : member = key ∨ member ∈ members := by
  induction members with
  | nil => exact .inl (List.mem_singleton.mp found)
  | cons first rest ih =>
    cases order : cmp key first with
    | lt => simpa only [insertMember, order, List.mem_cons] using found
    | eq =>
      simp only [insertMember, order, List.mem_cons] at found
      exact found.imp_right (List.mem_cons_of_mem first)
    | gt =>
      simp only [insertMember, order, List.mem_cons] at found
      rcases found with rfl | later
      · exact .inr List.mem_cons_self
      · exact (ih later).imp_right (List.mem_cons_of_mem first)

theorem mem_insert {key : κ} {value : ν} {entry : κ × ν} {entries : List (κ × ν)}
    (found : entry ∈ insert cmp key value entries) : entry = (key, value) ∨ entry ∈ entries := by
  induction entries with
  | nil => exact .inl (List.mem_singleton.mp found)
  | cons first rest ih =>
    cases order : cmp key first.1 with
    | lt => simpa only [insert, order, List.mem_cons] using found
    | eq =>
      simp only [insert, order, List.mem_cons] at found
      exact found.imp_right (List.mem_cons_of_mem first)
    | gt =>
      simp only [insert, order, List.mem_cons] at found
      rcases found with rfl | later
      · exact .inr List.mem_cons_self
      · exact (ih later).imp_right (List.mem_cons_of_mem first)

theorem mem_addMissing {entry : κ × ν} {base extra : List (κ × ν)}
    (found : entry ∈ addMissing cmp base extra) : entry ∈ base ∨ entry ∈ extra := by
  induction extra generalizing base with
  | nil => exact .inl found
  | cons pair rest ih =>
    rcases ih found with here | later
    · dsimp only at here
      split at here
      · exact .inl here
      · rcases mem_insert here with rfl | old
        · exact .inr List.mem_cons_self
        · exact .inl old
    · exact .inr (List.mem_cons_of_mem pair later)

theorem length_le_insert (key : κ) (value : ν) (entries : List (κ × ν)) :
    entries.length ≤ (insert cmp key value entries).length := by
  induction entries with
  | nil => exact Nat.zero_le _
  | cons first rest ih => cases order : cmp key first.1 <;> simp [insert, order, ih]

theorem length_le_addMissing (base extra : List (κ × ν)) :
    base.length ≤ (addMissing cmp base extra).length := by
  induction extra generalizing base with
  | nil => exact Nat.le_refl _
  | cons pair rest ih =>
    refine Nat.le_trans ?_ (ih _)
    dsimp only
    split
    · exact Nat.le_refl _
    · exact length_le_insert _ _ base

theorem length_le_union (left right : List (κ × ν)) :
    left.length ≤ (union cmp left right).length ∧ right.length ≤ (union cmp left right).length := by
  unfold union
  split
  next fewer =>
    have grown := @length_le_addMissing _ _ cmp left right
    omega
  next =>
    have grown := @length_le_addMissing _ _ cmp right left
    omega

theorem mem_union {entry : κ × ν} {left right : List (κ × ν)}
    (found : entry ∈ union cmp left right) : entry ∈ left ∨ entry ∈ right := by
  unfold union at found
  split at found
  · exact mem_addMissing found
  · exact (mem_addMissing found).symm

theorem mem_ofList {entry : κ × ν} {pairs : List (κ × ν)} (found : entry ∈ ofList cmp pairs) :
    entry ∈ pairs := by
  suffices general : ∀ entries : List (κ × ν),
      entry ∈ pairs.foldl (fun entries pair => insert cmp pair.1 pair.2 entries) entries →
      entry ∈ entries ∨ entry ∈ pairs from (general [] found).resolve_left List.not_mem_nil
  clear found
  induction pairs with
  | nil => exact fun _ => .inl
  | cons pair rest ih =>
    intro entries member
    rcases ih _ member with here | later
    · rcases mem_insert here with rfl | old
      · exact .inr List.mem_cons_self
      · exact .inl old
    · exact .inr (List.mem_cons_of_mem pair later)

variable [TransCmp cmp]

theorem find?_insert (key other : κ) (value : ν) (entries : List (κ × ν)) :
    find? cmp other (insert cmp key value entries) =
      if cmp other key = .eq then some value else find? cmp other entries := by
  induction entries with
  | nil => rfl
  | cons entry rest ih =>
    cases order : cmp key entry.1 with
    | lt => simp only [insert, order, find?]
    | eq =>
      have same : cmp other key = cmp other entry.1 := TransCmp.congr_right order
      simp only [insert, order, find?, same]
      split <;> rfl
    | gt =>
      simp only [insert, order, find?, ih]
      by_cases atEntry : cmp other entry.1 = .eq
      · have apart : cmp other key ≠ .eq := by
          intro atKey
          have equal := TransCmp.eq_trans (OrientedCmp.eq_symm atKey) atEntry
          rw [order] at equal
          contradiction
        simp only [if_pos atEntry, if_neg apart]
      · simp only [if_neg atEntry]

theorem find?_congr {key other : κ} (same : cmp key other = .eq) (entries : List (κ × ν)) :
    find? cmp key entries = find? cmp other entries := by
  induction entries with
  | nil => rfl
  | cons entry rest ih => rw [find?, find?, ih, TransCmp.congr_left same]

theorem find?_addMissing (key : κ) (base extra : List (κ × ν)) :
    find? cmp key (addMissing cmp base extra) = (find? cmp key base).or (find? cmp key extra) := by
  induction extra generalizing base with
  | nil => exact Option.or_none.symm
  | cons pair rest ih =>
    refine (ih _).trans ?_
    dsimp only
    by_cases same : cmp key pair.1 = .eq
    · rw [find?_congr same base, find?, if_pos same]
      split
      next present => rw [find?_congr same base, present, Option.some_or, Option.some_or]
      next absent => rw [find?_insert, if_pos same, absent, Option.some_or, Option.none_or]
    · rw [find?, if_neg same]
      split
      · rfl
      · rw [find?_insert, if_neg same]

theorem find?_union (key : κ) (left right : List (κ × ν)) :
    find? cmp key (union cmp left right) =
      if right.length ≤ left.length then (find? cmp key left).or (find? cmp key right)
      else (find? cmp key right).or (find? cmp key left) := by
  unfold union
  split <;> exact find?_addMissing key _ _

theorem find?_erase (key other : κ) (entries : List (κ × ν)) :
    find? cmp other (erase cmp key entries) =
      if cmp other key = .eq then none else find? cmp other entries := by
  induction entries with
  | nil => exact (ite_self none).symm
  | cons entry rest ih =>
    rw [erase_cons]
    by_cases atKey : cmp key entry.1 = .eq
    · have same : cmp other key = cmp other entry.1 := TransCmp.congr_right atKey
      rw [if_pos atKey, ih, same, find?]
      split <;> rfl
    · rw [if_neg atKey, find?, find?, ih]
      by_cases atEntry : cmp other entry.1 = .eq
      · have apart : cmp other key ≠ .eq := fun equal =>
          atKey (TransCmp.eq_trans (OrientedCmp.eq_symm equal) atEntry)
        rw [if_pos atEntry, if_neg apart, if_pos atEntry]
      · rw [if_neg atEntry, if_neg atEntry]

theorem hasMember_insertMember (key other : κ) (members : List κ) :
    hasMember cmp other (insertMember cmp key members) =
      (decide (cmp other key = .eq) || hasMember cmp other members) := by
  induction members with
  | nil => rfl
  | cons member rest ih =>
    simp only [hasMember] at ih
    cases order : cmp key member with
    | lt => simp only [insertMember, order, hasMember, List.any_cons]
    | eq =>
      have same : cmp other key = cmp other member := TransCmp.congr_right order
      simp only [insertMember, order, hasMember, List.any_cons, same, Bool.or_self_left]
    | gt =>
      simp only [insertMember, order, hasMember, List.any_cons, ih]
      exact Bool.or_left_comm _ _ _

theorem ascending_insert {key : κ} {value : ν} {entries : List (κ × ν)}
    (ascending : Ascending cmp entries) : Ascending cmp (insert cmp key value entries) := by
  induction entries with
  | nil => exact List.pairwise_singleton _ _
  | cons first rest ih =>
    obtain ⟨below, later⟩ := List.pairwise_cons.mp ascending
    cases order : cmp key first.1 with
    | lt =>
      rw [insert, order]
      have after : ∀ entry ∈ rest, cmp key entry.1 = .lt := fun entry member =>
        TransCmp.lt_trans order (below entry member)
      exact List.pairwise_cons.mpr ⟨List.forall_mem_cons.mpr ⟨order, after⟩, ascending⟩
    | eq =>
      rw [insert, order]
      refine List.pairwise_cons.mpr ⟨fun entry member => ?_, later⟩
      exact (TransCmp.congr_left order).trans (below entry member)
    | gt =>
      rw [insert, order]
      refine List.pairwise_cons.mpr ⟨fun entry member => ?_, ih later⟩
      rcases mem_insert member with rfl | old
      · exact OrientedCmp.lt_of_gt order
      · exact below entry old

theorem ascending_ofList (pairs : List (κ × ν)) : Ascending cmp (ofList cmp pairs) := by
  unfold ofList
  suffices general : ∀ entries : List (κ × ν), Ascending cmp entries → Ascending cmp
      (pairs.foldl (fun entries pair => insert cmp pair.1 pair.2 entries) entries) from
    general [] .nil
  induction pairs with
  | nil => exact fun _ => id
  | cons pair rest ih => exact fun entries ascending => ih _ (ascending_insert ascending)

/-- A key above all others goes to the end. -/
theorem insert_of_last {key : κ} {value : ν} {entries : List (κ × ν)}
    (last : ∀ entry ∈ entries, cmp entry.1 key = .lt) :
    insert cmp key value entries = entries ++ [(key, value)] := by
  induction entries with
  | nil => rfl
  | cons first rest ih =>
    obtain ⟨here, later⟩ := List.forall_mem_cons.mp last
    rw [insert, OrientedCmp.gt_of_lt here, ih later]
    rfl

/-- Nothing is lost, merged or moved exactly if the keys ascend already. -/
theorem ofList_eq_self_iff {pairs : List (κ × ν)} :
    ofList cmp pairs = pairs ↔ Ascending cmp pairs := by
  constructor
  · intro same
    rw [← same]
    exact ascending_ofList pairs
  · suffices general : ∀ entries : List (κ × ν), Ascending cmp (entries ++ pairs) →
        pairs.foldl (fun entries pair => insert cmp pair.1 pair.2 entries) entries =
          entries ++ pairs from general []
    induction pairs with
    | nil => exact fun entries _ => (List.append_nil entries).symm
    | cons pair rest ih =>
      intro entries ascending
      have last : ∀ entry ∈ entries, cmp entry.1 pair.1 = .lt := fun entry member =>
        (List.pairwise_append.mp ascending).2.2 entry member pair List.mem_cons_self
      rw [List.append_cons] at ascending ⊢
      rw [List.foldl_cons, insert_of_last last]
      exact ih _ ascending

/-- Keys may be exchanged for equal ones. -/
theorem Ascending.map {change : κ × ν → κ × ν} {entries : List (κ × ν)}
    (ascending : Ascending cmp entries)
    (same : ∀ entry ∈ entries, cmp (change entry).1 entry.1 = .eq) :
    Ascending cmp (entries.map change) := by
  refine List.pairwise_map.mpr (List.Pairwise.imp_of_mem ?_ ascending)
  intro first second firstMember secondMember below
  calc cmp (change first).1 (change second).1
      = cmp first.1 (change second).1 := TransCmp.congr_left (same first firstMember)
    _ = cmp first.1 second.1 := TransCmp.congr_right (same second secondMember)
    _ = .lt := below

end Ordered

end LispFront
