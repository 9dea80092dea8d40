import LispFront.Proofs.FormOrder

/-! Two forms are equal if they have the same content: what is left of a form when spans and
metadata are removed everywhere, and when one pattern stands for all floats that are not a number
and one for both zeros. These are also the forms that the order does not tell apart, so forms can be
keys of ordered maps (`forms_lawfully_ordered`). -/

namespace LispFront

open Std (TransCmp OrientedCmp)

namespace Binary64

/-- One pattern stands for all that are not a number, and one for both zeros. -/
def settled (x : Binary64) : Binary64 := if x.magnitude = 0 then ⟨0⟩ else x.canonical

variable {x y : Binary64}

theorem eq_of_magnitude (sign : x.negative = y.negative) (size : x.magnitude = y.magnitude) :
    x = y := by
  have first := x.bits.toNat_lt
  have second := y.bits.toNat_lt
  have bits : x.bits.toNat = y.bits.toNat := by
    simp only [negative, magnitude, decide_eq_decide, Nat.pow_eq] at sign size
    omega
  cases x
  cases y
  exact congrArg mk (UInt64.toNat_inj.mp bits)

theorem natAbs_rank : x.rank.natAbs = if x.isNaN then Nat.pow 2 63 else x.magnitude := by
  unfold rank
  split
  next => rfl
  next => split <;> simp

theorem isNaN_iff_natAbs_rank : x.isNaN = true ↔ x.rank.natAbs = Nat.pow 2 63 := by
  have bound : x.magnitude < Nat.pow 2 63 := Nat.mod_lt _ (by decide)
  rw [natAbs_rank]
  split
  next nan => exact iff_of_true nan rfl
  next number => exact iff_of_false number (Nat.ne_of_lt bound)

theorem rank_neg_iff (number : x.isNaN = false) (size : x.magnitude ≠ 0) :
    x.rank < 0 ↔ x.negative = true := by
  simp only [rank, number]
  cases x.negative <;> simp
  omega

theorem settled_of_isNaN (nan : x.isNaN = true) : x.settled = ⟨0x7ff8000000000000⟩ := by
  have above : infinite < x.magnitude := of_decide_eq_true nan
  rw [settled, if_neg (Nat.ne_zero_of_lt above), canonical, if_pos nan]

theorem rank_settled (x : Binary64) : x.settled.rank = x.rank := by
  cases number : x.isNaN with
  | true =>
    rw [settled_of_isNaN number, rank, rank, if_pos number]
    decide
  | false =>
    unfold settled canonical
    rw [number]
    split
    next zero =>
      simp only [rank, number, zero]
      cases x.negative <;> decide
    next => rfl

/-- A number other than zero is given by its rank: by the size and the sign of it. -/
theorem settled_eq_of_rank_eq (same : x.rank = y.rank) : x.settled = y.settled := by
  have kind : x.isNaN = y.isNaN := by
    rw [Bool.eq_iff_iff, isNaN_iff_natAbs_rank, isNaN_iff_natAbs_rank, same]
  cases number : x.isNaN with
  | true => rw [settled_of_isNaN number, settled_of_isNaN (kind ▸ number)]
  | false =>
    have size : x.magnitude = y.magnitude := by
      have sizes := congrArg Int.natAbs same
      simpa [natAbs_rank, ← kind, number] using sizes
    by_cases zero : x.magnitude = 0
    · rw [settled, settled, ← size, if_pos zero, if_pos zero]
    · have sign : x.negative = y.negative := by
        rw [Bool.eq_iff_iff, ← rank_neg_iff number zero, same,
          rank_neg_iff (kind ▸ number) (size ▸ zero)]
      rw [eq_of_magnitude sign size]

theorem rank_eq_iff : x.rank = y.rank ↔ x.settled = y.settled := by
  refine ⟨settled_eq_of_rank_eq, fun same => ?_⟩
  rw [← rank_settled x, same, rank_settled]

end Binary64

theorem Name.isEq_cmp (a b : Name) : (a.cmp b).isEq = (a == b) := by
  rw [Bool.eq_iff_iff, Ordering.isEq_iff_eq_eq, Name.cmp_eq_iff, beq_iff_eq]

namespace Form

mutual
/-- The form without spans and metadata, and with its floats replaced. -/
def strip (float : Binary64 → Binary64) : Form → Form
  | .float value => .float (float value)
  | .symbol name _ _ => .symbol name none []
  | .list items _ _ => .list (stripItems float items) none []
  | .vector items _ _ => .vector (stripItems float items) none []
  | .map entries _ _ => .map (stripEntries float entries) none []
  | form => form

def stripItems (float : Binary64 → Binary64) : List Form → List Form
  | [] => []
  | item :: rest => item.strip float :: stripItems float rest

def stripEntries (float : Binary64 → Binary64) : List (Form × Form) → List (Form × Form)
  | [] => []
  | (key, value) :: rest => (key.strip float, value.strip float) :: stripEntries float rest
end

/-- Two forms that differ only in spans and metadata have the same bare form. -/
def bare : Form → Form := strip id

/-- What equality sees of a form. -/
def content : Form → Form := strip Binary64.settled

theorem stripItems_eq_map (float : Binary64 → Binary64) (items : List Form) :
    stripItems float items = items.map (strip float) := by
  induction items with
  | nil => rfl
  | cons item rest ih => rw [stripItems, ih, List.map_cons]

theorem stripEntries_eq_map (float : Binary64 → Binary64) (entries : List (Form × Form)) :
    stripEntries float entries = entries.map (Prod.map (strip float) (strip float)) := by
  induction entries with
  | nil => rfl
  | cons entry rest ih =>
    rw [stripEntries, ih, List.map_cons]
    rfl

mutual
theorem strip_strip (inner outer : Binary64 → Binary64) (form : Form) :
    (form.strip inner).strip outer = form.strip (outer ∘ inner) := by
  cases form with
  | list items => rw [strip, strip, strip, stripItems_stripItems]
  | vector items => rw [strip, strip, strip, stripItems_stripItems]
  | map entries => rw [strip, strip, strip, stripEntries_stripEntries]
  | _ => rfl

theorem stripItems_stripItems (inner outer : Binary64 → Binary64) (items : List Form) :
    stripItems outer (stripItems inner items) = stripItems (outer ∘ inner) items := by
  cases items with
  | nil => rfl
  | cons item rest =>
    rw [stripItems, stripItems, stripItems, strip_strip, stripItems_stripItems]

theorem stripEntries_stripEntries (inner outer : Binary64 → Binary64)
    (entries : List (Form × Form)) :
    stripEntries outer (stripEntries inner entries) = stripEntries (outer ∘ inner) entries := by
  cases entries with
  | nil => rfl
  | cons entry rest =>
    obtain ⟨key, value⟩ := entry
    rw [stripEntries, stripEntries, stripEntries, strip_strip inner outer key,
      strip_strip inner outer value, stripEntries_stripEntries]
end

theorem content_bare (form : Form) : form.bare.content = form.content := strip_strip _ _ form

mutual
theorem same_eq_isEq_cmp (a b : Form) : a.same b = (a.cmp b).isEq := by
  cases a with
  | list as => cases b with
    | list bs => rw [same, cmp, sameItems_eq_isEq_cmpItems]
    | _ => rfl
  | vector as => cases b with
    | vector bs => rw [same, cmp, sameItems_eq_isEq_cmpItems]
    | _ => rfl
  | map as => cases b with
    | map bs => rw [same, cmp, sameEntries_eq_isEq_cmpEntries]
    | _ => rfl
  | _ =>
    cases b <;>
      simp [same, cmp, rank, Std.isEq_compare_eq_beq, Name.isEq_cmp, Binary64.cmp]

theorem sameItems_eq_isEq_cmpItems (as bs : List Form) :
    sameItems as bs = (cmpItems as bs).isEq := by
  cases as with
  | nil => cases bs <;> rfl
  | cons a as => cases bs with
    | nil => rfl
    | cons b bs =>
      rw [sameItems, cmpItems, Ordering.isEq_then, same_eq_isEq_cmp, sameItems_eq_isEq_cmpItems]

theorem sameEntries_eq_isEq_cmpEntries (as bs : List (Form × Form)) :
    sameEntries as bs = (cmpEntries as bs).isEq := by
  cases as with
  | nil => cases bs <;> rfl
  | cons a as => cases bs with
    | nil => rfl
    | cons b bs =>
      obtain ⟨key, value⟩ := a
      obtain ⟨otherKey, otherValue⟩ := b
      rw [sameEntries, cmpEntries, Ordering.isEq_then, Ordering.isEq_then, same_eq_isEq_cmp key,
        same_eq_isEq_cmp value, sameEntries_eq_isEq_cmpEntries]
end

mutual
theorem same_iff_content (a b : Form) : a.same b = true ↔ a.content = b.content := by
  cases a with
  | list as => cases b with
    | list bs => simp [same, content, strip, sameItems_iff_content as bs]
    | _ => simp [same, content, strip]
  | vector as => cases b with
    | vector bs => simp [same, content, strip, sameItems_iff_content as bs]
    | _ => simp [same, content, strip]
  | map as => cases b with
    | map bs => simp [same, content, strip, sameEntries_iff_content as bs]
    | _ => simp [same, content, strip]
  | _ => cases b <;> simp [same, content, strip, Binary64.rank_eq_iff]

theorem sameItems_iff_content (as bs : List Form) :
    sameItems as bs = true ↔
      stripItems Binary64.settled as = stripItems Binary64.settled bs := by
  cases as with
  | nil => cases bs <;> simp [sameItems, stripItems]
  | cons a as => cases bs with
    | nil => simp [sameItems, stripItems]
    | cons b bs =>
      have here := same_iff_content a b
      unfold content at here
      simp [sameItems, stripItems, here, sameItems_iff_content as bs]

theorem sameEntries_iff_content (as bs : List (Form × Form)) :
    sameEntries as bs = true ↔
      stripEntries Binary64.settled as = stripEntries Binary64.settled bs := by
  cases as with
  | nil => cases bs <;> simp [sameEntries, stripEntries]
  | cons a as => cases bs with
    | nil => simp [sameEntries, stripEntries]
    | cons b bs =>
      obtain ⟨key, value⟩ := a
      obtain ⟨otherKey, otherValue⟩ := b
      have keys := same_iff_content key otherKey
      have values := same_iff_content value otherValue
      unfold content at keys values
      simp [sameEntries, stripEntries, keys, values, sameEntries_iff_content as bs]
end

theorem cmp_eq_iff_same {a b : Form} : a.cmp b = .eq ↔ a.same b = true := by
  rw [same_eq_isEq_cmp, Ordering.isEq_iff_eq_eq]

theorem cmp_eq_iff_content {a b : Form} : a.cmp b = .eq ↔ a.content = b.content :=
  cmp_eq_iff_same.trans (same_iff_content a b)

/-- The order sees no more of two forms than their contents. -/
theorem cmp_congr {a b a' b' : Form} (first : a'.content = a.content)
    (second : b'.content = b.content) : a'.cmp b' = a.cmp b :=
  calc a'.cmp b' = a.cmp b' := TransCmp.congr_left (cmp_eq_iff_content.mpr first)
    _ = a.cmp b := TransCmp.congr_right (cmp_eq_iff_content.mpr second)

end Form

/-- The order of forms is total and transitive, and turning a comparison around reverses it. It does
not tell two forms apart exactly if they are equal, and that is if they have the same content. Spans
and metadata, however deep inside, change neither the order nor equality. -/
theorem forms_lawfully_ordered (a b c : Form) :
    ((a.cmp b).isLE = true ∨ (b.cmp a).isLE = true) ∧
    ((a.cmp b).isLE = true → (b.cmp c).isLE = true → (a.cmp c).isLE = true) ∧
    (∀ order, a.cmp b = order → b.cmp c = order → a.cmp c = order) ∧
    b.cmp a = (a.cmp b).swap ∧
    (a.cmp b = .eq ↔ a.same b = true) ∧
    (a.same b = true ↔ a.content = b.content) ∧
    (∀ a' b' : Form, a'.bare = a.bare → b'.bare = b.bare →
      a'.cmp b' = a.cmp b ∧ a'.same b' = a.same b) := by
  refine ⟨?_, TransCmp.isLE_trans, ?_, OrientedCmp.eq_swap, Form.cmp_eq_iff_same,
    Form.same_iff_content a b, ?_⟩
  · rw [@OrientedCmp.eq_swap _ Form.cmp _ b a]
    cases a.cmp b <;> decide
  · intro order
    cases order with
    | lt => exact TransCmp.lt_trans
    | eq => exact TransCmp.eq_trans
    | gt => exact TransCmp.gt_trans
  · intro a' b' first second
    have order : a'.cmp b' = a.cmp b := by
      refine Form.cmp_congr ?_ ?_
      · rw [← Form.content_bare, first, Form.content_bare]
      · rw [← Form.content_bare, second, Form.content_bare]
    refine ⟨order, ?_⟩
    rw [Form.same_eq_isEq_cmp, order, Form.same_eq_isEq_cmp]

example :
    (Form.map [(.float ⟨0x8000000000000000⟩, .float ⟨0xfff0000000000001⟩)] none []).same
      (.map [(.float ⟨0⟩, .float ⟨0x7ff8000000000000⟩)] (some ⟨1, 1, 1, 9, none⟩) []) = true := by
  decide

end LispFront
