import LispFront.Proofs.Registry

/-! A journal keeps what has been added to a registry, each addition with the definition it replaced
and the latest one first. What the registry is once all of its journal is taken back does not change
with one more addition (`Journal.takeBack_add`). So any run of additions can be taken back, also if
some of them were refused, as long as it creates no namespace (`additions_taken_back_iff`). -/

namespace LispFront

/-- A definition to be added. -/
structure Addition where
  ns : String
  base : String
  metadata : Entries

/-- A registry and the additions made to it. -/
structure Journal where
  registry : Registry
  /-- The latest one is first. -/
  made : List (Addition × Option Definition) := []

namespace Journal

/-- An addition that is refused is not written down. -/
def add (journal : Journal) (addition : Addition) : Journal :=
  match journal.registry.addDefinition addition.ns addition.base addition.metadata with
  | .ok (previous, registry) => { registry, made := (addition, previous) :: journal.made }
  | .error _ => journal

def addAll (journal : Journal) (additions : List Addition) : Journal := additions.foldl add journal

/-- Takes all additions back, the latest one first. -/
def takeBack (journal : Journal) : Registry :=
  journal.made.foldl (fun registry entry =>
    registry.restoreDefinition entry.1.ns entry.1.base entry.2) journal.registry

variable {journal : Journal} {addition : Addition} {additions : List Addition} {ns : String}

theorem has_add :
    (journal.add addition).registry.has ns =
      (decide (ns = addition.ns) || journal.registry.has ns) := by
  unfold add
  split
  next added =>
    obtain ⟨_, _, rfl⟩ := Registry.addDefinition_eq_ok.mp added
    exact Registry.has_update
  next refused =>
    -- Only a definition that is there can be in the way, so the namespace is there too.
    obtain ⟨found, _, _⟩ := Registry.addDefinition_eq_error.mp refused
    by_cases same : ns = addition.ns
    · have present : journal.registry.has ns = true := by
        obtain ⟨definition, found⟩ := Option.isSome_iff_exists.mp found
        obtain ⟨space, held, _⟩ := Option.bind_eq_some_iff.mp found
        exact same ▸ Option.isSome_iff_exists.mpr ⟨space, held⟩
      rw [present, Bool.or_true]
    · rw [decide_eq_false same, Bool.false_or]

theorem has_addAll :
    (journal.addAll additions).registry.has ns =
      (additions.any (fun addition => ns = addition.ns) || journal.registry.has ns) := by
  induction additions generalizing journal with
  | nil => rfl
  | cons addition rest ih =>
    refine (@ih (journal.add addition)).trans ?_
    rw [has_add, List.any_cons, Bool.or_left_comm, Bool.or_assoc]

theorem has_takeBack (present : journal.registry.has ns = true) :
    journal.takeBack.has ns = true := by
  obtain ⟨registry, made⟩ := journal
  unfold takeBack
  induction made generalizing registry with
  | nil => exact present
  | cons entry earlier ih =>
    exact ih (registry.restoreDefinition entry.1.ns entry.1.base entry.2)
      (Registry.has_update.trans (Bool.or_eq_true_iff.mpr (.inr present)))

/-- The step: an addition is the first to be taken back, and then all is as it was before. -/
theorem takeBack_add (present : journal.registry.has addition.ns = true) :
    (journal.add addition).takeBack = journal.takeBack := by
  unfold add
  split
  next added =>
    unfold takeBack
    rw [List.foldl_cons, Registry.restoreDefinition_addDefinition present added]
  next => rfl

theorem takeBack_addAll
    (present : ∀ addition ∈ additions, journal.registry.has addition.ns = true) :
    (journal.addAll additions).takeBack = journal.takeBack := by
  induction additions generalizing journal with
  | nil => rfl
  | cons addition rest ih =>
    obtain ⟨here, later⟩ := List.forall_mem_cons.mp present
    have stays : ∀ other ∈ rest, (journal.add addition).registry.has other.ns = true := by
      intro other member
      rw [has_add, later other member, Bool.or_true]
    exact (ih stays).trans (takeBack_add here)

end Journal

/-- Additions to a registry, with redefinition allowed or not and refused ones among them, can be
taken back from the latest to the first, and the registry is again what it was, exactly if it had
all of their namespaces from the start. -/
theorem additions_taken_back_iff (registry : Registry) (additions : List Addition) :
    (Journal.addAll { registry } additions).takeBack = registry ↔
      ∀ addition ∈ additions, registry.has addition.ns = true := by
  constructor
  · intro restored addition member
    rw [← restored]
    refine Journal.has_takeBack (Journal.has_addAll.trans (Bool.or_eq_true_iff.mpr (.inl ?_)))
    exact List.any_eq_true.mpr ⟨addition, member, decide_eq_true rfl⟩
  · intro present
    exact Journal.takeBack_addAll present

example :
    let journal := Journal.addAll { registry := .start "app" }
      [⟨"app", "x", []⟩, ⟨"app", "x", []⟩, ⟨"app", "y", []⟩]
    journal.made.map (fun entry => entry.1.base) = ["y", "x"] ∧ journal.takeBack = .start "app" :=
  ⟨by decide, rfl⟩

end LispFront
