import LispFront.Form.Order
import LispFront.Proofs.Lowering

/-! Up to a depth, forms are compared by a fixed sequence of keys: kind, number, text, name, items,
entries (`Form.cmpWithin`). A form has only some of these, and those it lacks are the same for all
forms of its kind. So each of these comparisons is transitive, and the order of forms is any of them
that goes deep enough (`Form.cmp_eq_cmpWithin`). -/

namespace LispFront

open Std (TransCmp)

/-- Compares by a key. -/
def compareBy {α κ : Type} (cmp : κ → κ → Ordering) (key : α → κ) (a b : α) : Ordering :=
  cmp (key a) (key b)

instance {α κ : Type} (cmp : κ → κ → Ordering) [lawful : TransCmp cmp] (key : α → κ) :
    TransCmp (compareBy cmp key) where
  eq_swap := lawful.eq_swap
  isLE_trans := lawful.isLE_trans

namespace Form

def orderNumber : Form → Int
  | .bool value => if value then 1 else 0
  | .int value => value
  | .float value => value.rank
  | _ => 0

def orderText : Form → String
  | .str text => text
  | _ => ""

def orderName : Form → Name
  | .keyword name | .symbol name _ _ => name
  | _ => .plain ""

def orderEntries : Form → Entries
  | .map entries _ _ => entries
  | _ => []

/-- Key first, then value. -/
def cmpPair (cmp : Form → Form → Ordering) : Form × Form → Form × Form → Ordering :=
  compareLex (compareBy cmp Prod.fst) (compareBy cmp Prod.snd)

/-- The order of forms, seen down to this depth only. -/
def cmpWithin : Nat → Form → Form → Ordering
  | 0 => fun _ _ => .eq
  | depth + 1 =>
    compareLex (compareOn rank) <| compareLex (compareOn orderNumber) <|
      compareLex (compareOn orderText) <| compareLex (compareBy Name.cmp orderName) <|
      compareLex (compareBy (List.compareLex (cmpWithin depth)) items)
        (compareBy (List.compareLex (cmpPair (cmpWithin depth))) orderEntries)

instance (cmp : Form → Form → Ordering) [TransCmp cmp] : TransCmp (cmpPair cmp) :=
  inferInstanceAs (TransCmp (compareLex (compareBy cmp Prod.fst) (compareBy cmp Prod.snd)))

instance transCmp_cmpWithin : (depth : Nat) → TransCmp (cmpWithin depth)
  | 0 => { eq_swap := rfl, isLE_trans := fun _ _ => rfl }
  | depth + 1 =>
    have _ := transCmp_cmpWithin depth
    inferInstanceAs (TransCmp (compareLex (compareOn rank) _))

variable {cmp' : Form → Form → Ordering}

theorem cmpItems_eq {as bs : List Form} (same : ∀ a ∈ as, ∀ b ∈ bs, a.cmp b = cmp' a b) :
    cmpItems as bs = as.compareLex cmp' bs := by
  induction as generalizing bs with
  | nil => cases bs <;> rfl
  | cons a as ih =>
    cases bs with
    | nil => rfl
    | cons b bs =>
      have later := ih fun a first b second =>
        same a (List.mem_cons_of_mem _ first) b (List.mem_cons_of_mem _ second)
      have here := same a List.mem_cons_self b List.mem_cons_self
      rw [cmpItems, List.compareLex_cons_cons, later, here]

theorem cmpEntries_eq {as bs : List (Form × Form)}
    (keys : ∀ a ∈ as, ∀ b ∈ bs, a.1.cmp b.1 = cmp' a.1 b.1)
    (values : ∀ a ∈ as, ∀ b ∈ bs, a.2.cmp b.2 = cmp' a.2 b.2) :
    cmpEntries as bs = as.compareLex (cmpPair cmp') bs := by
  induction as generalizing bs with
  | nil => cases bs <;> rfl
  | cons a as ih =>
    cases bs with
    | nil => rfl
    | cons b bs =>
      have later := ih
        (fun a first b second =>
          keys a (List.mem_cons_of_mem _ first) b (List.mem_cons_of_mem _ second))
        fun a first b second =>
          values a (List.mem_cons_of_mem _ first) b (List.mem_cons_of_mem _ second)
      have key := keys a List.mem_cons_self b List.mem_cons_self
      have value := values a List.mem_cons_self b List.mem_cons_self
      rw [cmpEntries, List.compareLex_cons_cons, later, key, value]
      rfl

theorem depth_le_depthItems {item : Form} {items : List Form} (member : item ∈ items) :
    item.depth ≤ depthItems items := by
  induction items with
  | nil => contradiction
  | cons first rest ih =>
    rw [depthItems]
    rcases List.mem_cons.mp member with rfl | later
    · omega
    · have below := ih later
      omega

theorem depth_le_depthEntries {entry : Form × Form} {entries : List (Form × Form)}
    (member : entry ∈ entries) :
    entry.1.depth ≤ depthEntries entries ∧ entry.2.depth ≤ depthEntries entries := by
  induction entries with
  | nil => contradiction
  | cons first rest ih =>
    rw [depthEntries]
    rcases List.mem_cons.mp member with rfl | later
    · omega
    · have below := ih later
      omega

theorem compare_bool (a b : Bool) :
    compare a b = compare (if a then 1 else 0 : Int) (if b then 1 else 0) := by
  revert a b
  decide

/-- Forms of different kinds are compared by kind. -/
theorem cmp_of_rank_ne {a b : Form} (apart : a.rank ≠ b.rank) :
    a.cmp b = compare a.rank b.rank := by
  unfold cmp
  split
  all_goals first | rfl | exact (apart rfl).elim

theorem cmpWithin_of_rank_ne {depth : Nat} {a b : Form} (apart : a.rank ≠ b.rank) :
    cmpWithin (depth + 1) a b = compare a.rank b.rank := by
  have decided : compare a.rank b.rank ≠ .eq := fun same => apart (Std.compare_eq_iff_eq.mp same)
  simp only [cmpWithin, compareLex, compareOn]
  rcases order : compare a.rank b.rank with _ | _ | _
  · rfl
  · exact (decided order).elim
  · rfl

theorem cmp_eq_cmpWithin {depth : Nat} {a b : Form} (first : a.depth ≤ depth)
    (second : b.depth ≤ depth) : a.cmp b = cmpWithin depth a b := by
  induction depth generalizing a b with
  | zero => cases a <;> simp [Form.depth] at first
  | succ depth ih =>
    have byItems {as bs : List Form} (first : depthItems as ≤ depth)
        (second : depthItems bs ≤ depth) : cmpItems as bs = as.compareLex (cmpWithin depth) bs :=
      cmpItems_eq fun a left b right =>
        ih (Nat.le_trans (depth_le_depthItems left) first)
          (Nat.le_trans (depth_le_depthItems right) second)
    have byEntries {as bs : List (Form × Form)} (first : depthEntries as ≤ depth)
        (second : depthEntries bs ≤ depth) :
        cmpEntries as bs = as.compareLex (cmpPair (cmpWithin depth)) bs :=
      cmpEntries_eq
        (fun a left b right => ih (Nat.le_trans (depth_le_depthEntries left).1 first)
          (Nat.le_trans (depth_le_depthEntries right).1 second))
        fun a left b right => ih (Nat.le_trans (depth_le_depthEntries left).2 first)
          (Nat.le_trans (depth_le_depthEntries right).2 second)
    by_cases kind : a.rank = b.rank
    · -- One kind: every key but those of that kind is the same on both sides.
      cases a <;> cases b <;> first | cases kind; done | skip
      all_goals
        simp only [Form.depth, Nat.add_le_add_iff_right] at first second
        simp [cmp, *, rank, cmpWithin, compareLex, compareOn, compareBy, orderNumber, orderText,
          orderName, items, orderEntries, compare_bool, Binary64.cmp, Std.ReflCmp.compare_self]
    · rw [cmp_of_rank_ne kind, cmpWithin_of_rank_ne kind]

instance : TransCmp Form.cmp where
  eq_swap {a b} := by
    have first := Nat.le_max_left a.depth b.depth
    have second := Nat.le_max_right a.depth b.depth
    rw [cmp_eq_cmpWithin first second, cmp_eq_cmpWithin second first]
    exact (transCmp_cmpWithin _).eq_swap
  isLE_trans {a b c} ab bc := by
    let depth := max a.depth (max b.depth c.depth)
    have first : a.depth ≤ depth := Nat.le_max_left ..
    have second : b.depth ≤ depth := by omega
    have third : c.depth ≤ depth := by omega
    rw [cmp_eq_cmpWithin first second] at ab
    rw [cmp_eq_cmpWithin second third] at bc
    rw [cmp_eq_cmpWithin first third]
    exact (transCmp_cmpWithin depth).isLE_trans ab bc

end Form

end LispFront
