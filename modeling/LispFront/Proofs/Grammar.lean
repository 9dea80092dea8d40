import LispFront.Proofs.Acceptance

/-! `Pattern.WellFormed` says which forms are patterns. Lowering accepts these and no others; any
other list of pairs is refused for the first sub-pattern that is none, in the order in which
sub-patterns are looked at (`accepts_exactly_grammar`). -/

namespace LispFront.Pattern

/-- What stands in front of the first mark. -/
def front (items : List Form) : List Form :=
  items.takeWhile fun item => !Parameters.isMark item

/-- What stands behind the first mark. -/
def behind (items : List Form) : List Form :=
  (items.dropWhile fun item => !Parameters.isMark item).drop 1

inductive WellFormed : Form → Prop where
  | symbol {name : Name} {span : Option Span} {metadata : Entries}
      (plain : name.isQualified = false) : WellFormed (.symbol name span metadata)
  | vector {items : List Form} {span : Option Span} {metadata : Entries}
      (front : ∀ item ∈ front items, WellFormed item) (single : (behind items).length ≤ 1)
      (rest : ∀ item ∈ behind items, WellFormed item) : WellFormed (.vector items span metadata)
  | map {entries : List (Form × Form)} {span : Option Span} {metadata : Entries}
      (values : ∀ entry ∈ entries, WellFormed entry.2) : WellFormed (.map entries span metadata)

/-- The patterns that stand directly in a pattern, in the order in which they are looked at. Where
more than one stands behind the mark, none of these is. -/
def parts : Form → List Form
  | .vector items _ _ => front items ++ if (behind items).length ≤ 1 then behind items else []
  | .map entries _ _ => entries.map Prod.snd
  | _ => []

/-- What is wrong with a pattern itself, its parts left aside. -/
def ownFault? : Form → Option Fault
  | .symbol name _ _ => if name.isQualified then some (.notDestructurable "symbol") else none
  | .vector items _ _ => if (behind items).length ≤ 1 then none else some .crowdedRest
  | .map .. => none
  | form => some (.notDestructurable form.kindName)

def ownError? (pattern : Form) : Option AnalysisError :=
  (ownFault? pattern).map fun fault => .atForm fault pattern

variable {items : List Form} {item part pattern : Form}

theorem front_cons (unmarked : ¬ item.isNamed restMark = true) :
    front (item :: items) = item :: front items := by
  simp [front, Parameters.isMark, unmarked]

theorem behind_cons (unmarked : ¬ item.isNamed restMark = true) :
    behind (item :: items) = behind items := by
  simp [behind, Parameters.isMark, unmarked]

theorem front_cons_mark (marked : item.isNamed restMark = true) : front (item :: items) = [] := by
  simp [front, Parameters.isMark, marked]

theorem behind_cons_mark (marked : item.isNamed restMark = true) :
    behind (item :: items) = items := by
  simp [behind, Parameters.isMark, marked]

theorem mem_of_mem_front (member : item ∈ front items) : item ∈ items :=
  (List.takeWhile_sublist _).mem member

theorem mem_of_mem_behind (member : item ∈ behind items) : item ∈ items :=
  (List.dropWhile_sublist _).mem (List.mem_of_mem_drop member)

theorem sizeOf_part (member : part ∈ parts pattern) : sizeOf part < sizeOf pattern := by
  cases pattern with
  | vector items span metadata =>
    have inside : part ∈ items := by
      rcases List.mem_append.mp member with first | rest
      · exact mem_of_mem_front first
      · split at rest
        · exact mem_of_mem_behind rest
        · contradiction
    have smaller := List.sizeOf_lt_of_mem inside
    simp only [Form.vector.sizeOf_spec]
    omega
  | map entries span metadata =>
    obtain ⟨entry, inside, rfl⟩ := List.mem_map.mp member
    have smaller := List.sizeOf_lt_of_mem inside
    have value : sizeOf entry.2 < sizeOf entry := by
      obtain ⟨key, value⟩ := entry
      simp only [Prod.mk.sizeOf_spec]
      omega
    simp only [Form.map.sizeOf_spec]
    omega
  | _ => contradiction

/-- What holds of a pattern as soon as it holds of its parts holds of every pattern. -/
theorem parts_induction {P : Form → Prop}
    (step : ∀ pattern, (∀ part ∈ parts pattern, P part) → P pattern) (pattern : Form) :
    P pattern := by
  induction size : sizeOf pattern using Nat.strongRecOn generalizing pattern with
  | ind _ ih =>
    subst size
    exact step pattern fun part member => ih _ (sizeOf_part member) part rfl

/-- All sub-patterns in the order in which they are looked at: each after its parts. -/
def traversal (pattern : Form) : List Form :=
  (parts pattern).attach.flatMap (fun part => traversal part.1) ++ [pattern]
termination_by sizeOf pattern
decreasing_by exact sizeOf_part part.2

theorem traversal_eq : traversal pattern = (parts pattern).flatMap traversal ++ [pattern] := by
  rw [traversal, List.flatMap_subtype fun _ _ => rfl, List.unattach_attach]

theorem wellFormed_iff :
    WellFormed pattern ↔ ownFault? pattern = none ∧ ∀ part ∈ parts pattern, WellFormed part := by
  constructor
  · intro wellFormed
    cases wellFormed with
    | symbol plain => simp [ownFault?, parts, plain]
    | vector front single rest =>
      simpa [ownFault?, parts, single, or_imp, forall_and] using ⟨front, rest⟩
    | map values => simpa [ownFault?, parts] using fun value key => values (key, value)
  · rintro ⟨own, all⟩
    cases pattern with
    | symbol name span metadata => exact .symbol (by simpa [ownFault?] using own)
    | vector items span metadata =>
      have single : (behind items).length ≤ 1 := by simpa [ownFault?] using own
      simp only [parts, if_pos single, List.forall_mem_append] at all
      exact .vector all.1 single all.2
    | map entries span metadata =>
      exact .map fun entry member => all entry.2 (List.mem_map_of_mem member)
    | _ => contradiction

theorem findSome?_flatMap_traversal {patterns : List Form}
    (each : ∀ pattern ∈ patterns, refusal pattern = (traversal pattern).findSome? ownError?) :
    patterns.findSome? refusal = (patterns.flatMap traversal).findSome? ownError? := by
  induction patterns with
  | nil => rfl
  | cons pattern rest ih =>
    obtain ⟨own, others⟩ := List.forall_mem_cons.mp each
    rw [List.flatMap_cons, List.findSome?_append, ← own, ← ih others, List.findSome?_cons]
    cases refusal pattern <;> rfl

theorem itemsRefusal_eq (span : Option Span) (items : List Form) :
    itemsRefusal span items = ((front items).findSome? refusal).or
      (if (behind items).length ≤ 1 then (behind items).findSome? refusal
        else some { fault := .crowdedRest, span }) := by
  induction items with
  | nil => rfl
  | cons item rest ih =>
    unfold itemsRefusal
    split
    next marked =>
      rw [front_cons_mark marked, behind_cons_mark marked]
      match rest with
      | [] => rfl
      | [pattern] => simp [restRefusal]
      | _ :: _ :: _ => simp [restRefusal]
    next unmarked =>
      rw [front_cons unmarked, behind_cons unmarked, ih, List.findSome?_cons]
      cases refusal item <;> rfl

theorem entriesRefusal_eq (entries : List (Form × Form)) :
    entriesRefusal entries = (entries.map Prod.snd).findSome? refusal := by
  induction entries with
  | nil => rfl
  | cons entry rest ih =>
    rw [entriesRefusal, ih, List.map_cons, List.findSome?_cons]
    cases refusal entry.2 <;> rfl

/-- A pattern is refused for the first of its parts that is refused, or else for itself. -/
theorem refusal_eq (pattern : Form) :
    refusal pattern = ((parts pattern).findSome? refusal).or (ownError? pattern) := by
  cases pattern with
  | symbol name span metadata =>
    simp only [refusal, parts, ownError?, ownFault?]
    split <;> rfl
  | vector items span metadata =>
    simp only [refusal, parts, ownError?, ownFault?, itemsRefusal_eq, List.findSome?_append]
    split
    · simp
    · simp [AnalysisError.atForm, Form.span]
  | map entries span metadata =>
    simp [refusal, parts, ownError?, ownFault?, entriesRefusal_eq]
  | _ => rfl

theorem refusal_eq_findSome? (pattern : Form) :
    refusal pattern = (traversal pattern).findSome? ownError? := by
  induction pattern using parts_induction with
  | step pattern ih =>
    rw [refusal_eq, findSome?_flatMap_traversal ih, traversal_eq, List.findSome?_append]
    cases own : ownError? pattern <;> simp [own]

theorem ownError?_eq_none : ownError? pattern = none ↔ ownFault? pattern = none :=
  Option.map_eq_none_iff

theorem mem_traversal : pattern ∈ traversal pattern := by
  rw [traversal_eq]
  exact List.mem_append_right _ List.mem_cons_self

/-- Nothing is wrong with any of the patterns looked at so far, so they are well-formed: the parts
of each are among them. -/
def SoundSoFar (visited : List Form) : Prop :=
  ∀ looked, looked <+: visited → (∀ pattern ∈ looked, ownFault? pattern = none) →
    ∀ pattern ∈ looked, WellFormed pattern

theorem soundSoFar_flatMap {patterns : List Form}
    (each : ∀ pattern ∈ patterns, SoundSoFar (traversal pattern)) :
    SoundSoFar (patterns.flatMap traversal) := by
  induction patterns with
  | nil =>
    intro looked within clean pattern member
    rw [List.prefix_nil.mp within] at member
    contradiction
  | cons pattern rest ih =>
    obtain ⟨own, others⟩ := List.forall_mem_cons.mp each
    intro looked within clean
    rw [List.flatMap_cons] at within
    rcases List.prefix_or_prefix_of_prefix within (List.prefix_append _ _) with short | ⟨more, rfl⟩
    · exact own looked short clean
    · obtain ⟨cleanFirst, cleanMore⟩ := List.forall_mem_append.mp clean
      refine List.forall_mem_append.mpr ⟨own _ (List.prefix_refl _) cleanFirst, ?_⟩
      exact ih others more ((List.prefix_append_right_inj _).mp within) cleanMore

theorem soundSoFar_traversal (pattern : Form) : SoundSoFar (traversal pattern) := by
  induction pattern using parts_induction with
  | step pattern ih =>
    have parts := soundSoFar_flatMap ih
    intro looked within clean
    rw [traversal_eq] at within
    rcases List.prefix_concat_iff.mp within with rfl | short
    · obtain ⟨cleanParts, own⟩ := List.forall_mem_append.mp clean
      have before := parts _ (List.prefix_refl _) cleanParts
      refine List.forall_mem_append.mpr ⟨before, List.forall_mem_singleton.mpr ?_⟩
      refine wellFormed_iff.mpr ⟨own pattern List.mem_cons_self, fun part member => ?_⟩
      exact before part (List.mem_flatMap.mpr ⟨part, member, mem_traversal⟩)
    · exact parts looked short clean

theorem refusal_eq_none (pattern : Form) : refusal pattern = none ↔ WellFormed pattern := by
  induction pattern using parts_induction with
  | step pattern ih =>
    rw [refusal_eq, Option.or_eq_none_iff, List.findSome?_eq_none_iff, ownError?_eq_none,
      wellFormed_iff, and_comm]
    exact and_congr_right fun _ => forall₂_congr ih

/-- The pattern is the first one that is not well-formed. -/
def FirstIllFormed (visited : List Form) (pattern : Form) : Prop :=
  ∃ before after, visited = before ++ pattern :: after ∧ (∀ earlier ∈ before, WellFormed earlier) ∧
    ¬ WellFormed pattern

/-- The first error of a traversal is that of the first ill-formed pattern. -/
theorem SoundSoFar.firstIllFormed {visited : List Form} {error : AnalysisError}
    (sound : SoundSoFar visited) (found : visited.findSome? ownError? = some error) :
    ∃ pattern fault, FirstIllFormed visited pattern ∧ ownFault? pattern = some fault ∧
      AnalysisError.atForm fault pattern = error := by
  obtain ⟨before, pattern, after, split, own, clean⟩ := List.findSome?_eq_some_iff.mp found
  obtain ⟨fault, faulty, same⟩ := Option.map_eq_some_iff.mp own
  refine ⟨pattern, fault, ⟨before, after, split, ?_, fun wellFormed => ?_⟩, faulty, same⟩
  · have within : before <+: visited := ⟨pattern :: after, split.symm⟩
    exact sound before within fun earlier member => ownError?_eq_none.mp (clean earlier member)
  · rw [(wellFormed_iff.mp wellFormed).1] at faulty
    contradiction

/-- Lowering succeeds for well-formed patterns and for no others. Otherwise it fails with what is
wrong with the first sub-pattern that is ill-formed, in the order in which they are looked at. -/
theorem accepts_exactly_grammar (core : String) (pairs : List (Form × Form)) (n : NameSupply) :
    (Accepts (lowerPairs core pairs) n ↔ ∀ pair ∈ pairs, WellFormed pair.1) ∧
    ((¬ ∀ pair ∈ pairs, WellFormed pair.1) → ∃ pattern fault m,
      FirstIllFormed (pairs.flatMap fun pair => traversal pair.1) pattern ∧
      ownFault? pattern = some fault ∧
      Fails (lowerPairs core pairs) n (.atForm fault pattern) m) := by
  have accepted : Accepts (lowerPairs core pairs) n ↔ ∀ pair ∈ pairs, WellFormed pair.1 :=
    exists_gives_lowerPairs.trans (forall₂_congr fun pair _ => refusal_eq_none pair.1)
  refine ⟨accepted, fun illFormed => ?_⟩
  have judged := @judged_lowerPairs core pairs
  cases verdict : pairs.findSome? fun pair => refusal pair.1 with
  | none => exact (illFormed (accepted.mp (judged.gives verdict n))).elim
  | some error =>
    obtain ⟨m, failed⟩ := judged.fails error verdict n
    have sound : SoundSoFar ((pairs.map Prod.fst).flatMap traversal) :=
      soundSoFar_flatMap fun pattern _ => soundSoFar_traversal pattern
    have found : ((pairs.map Prod.fst).flatMap traversal).findSome? ownError? = some error := by
      rw [← findSome?_flatMap_traversal fun pattern _ => refusal_eq_findSome? pattern,
        List.findSome?_map]
      exact verdict
    rw [List.flatMap_map] at sound found
    obtain ⟨pattern, fault, first, faulty, rfl⟩ := sound.firstIllFormed found
    exact ⟨pattern, fault, m, first, faulty, failed⟩

/-- `[x & &]` and `{:k [a & & b]}`, each to be bound to nil -/
def markedPairs : List (Form × Form) :=
  [(.vector [.plainSymbol "x", .plainSymbol "&", .plainSymbol "&"] none [], .nil),
    (.map [(.plainKeyword "k", .vector [.plainSymbol "a", .plainSymbol "&", .plainSymbol "&",
      .plainSymbol "b"] none [])] none [], .nil)]

theorem accepts_exactly_grammar_marks : Accepts (lowerPairs "core" (markedPairs.take 1)) {} ∧
    ∃ pattern m, FirstIllFormed (markedPairs.flatMap fun pair => traversal pair.1) pattern ∧
      ownFault? pattern = some .crowdedRest ∧
      Fails (lowerPairs "core" markedPairs) {} (.atForm .crowdedRest pattern) m := by
  have lone : WellFormed (.vector [.plainSymbol "x", .plainSymbol "&", .plainSymbol "&"] none []) :=
    (refusal_eq_none _).mp rfl
  have crowded : ¬ ∀ pair ∈ markedPairs, WellFormed pair.1 := by
    intro all
    have second := (refusal_eq_none _).mpr (all _ (List.mem_cons_of_mem _ List.mem_cons_self))
    contradiction
  obtain ⟨accepted, _⟩ := accepts_exactly_grammar "core" (markedPairs.take 1) {}
  obtain ⟨_, refused⟩ := accepts_exactly_grammar "core" markedPairs {}
  obtain ⟨pattern, fault, m, first, faulty, failed⟩ := refused crowded
  have crowdedRest : Fails (lowerPairs "core" markedPairs) {} { fault := .crowdedRest } _ := rfl
  obtain ⟨same, _⟩ := Prod.mk.inj (failed.symm.trans crowdedRest)
  obtain rfl : fault = .crowdedRest := congrArg AnalysisError.fault (Except.error.inj same)
  exact ⟨accepted.mpr (List.forall_mem_singleton.mpr lone), pattern, m, first, faulty, failed⟩

end LispFront.Pattern
