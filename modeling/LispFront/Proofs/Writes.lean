import LispFront.Proofs.Construction
import LispFront.Proofs.Locality

/-! `Form.writes` lists what the special forms that stand anywhere in a form would write to the
registry. Lowering writes no such special forms itself, so with no host an analysis writes nothing
else (`Permits.of_analyze`, `Constructs.of_analyze`). -/

namespace LispFront

/-- What the rule of a list itself writes. -/
def Form.ownWrite? : List Form → Option Write
  | head :: args => (Analyzer.special? head).bind fun form => form.write? args
  | [] => none

mutual
/-- What the special forms in a form write, those in the metadata of symbols included. -/
def Form.writes : Form → List Write
  | .symbol _ _ metadata => entryWrites metadata
  | .list items _ _ => (ownWrite? items).toList ++ itemWrites items
  | .vector items _ _ => itemWrites items
  | .map entries _ _ => entryWrites entries
  | _ => []

def Form.itemWrites : List Form → List Write
  | [] => []
  | item :: rest => item.writes ++ itemWrites rest

def Form.entryWrites : List (Form × Form) → List Write
  | [] => []
  | (key, value) :: rest => key.writes ++ value.writes ++ entryWrites rest
end

/-- All that the form writes is allowed. -/
def Form.WritesOnly (allows : Write → Prop) (form : Form) : Prop :=
  ∀ write ∈ form.writes, allows write

namespace Form

variable {allows : Write → Prop} {items : List Form} {entries metadata : List (Form × Form)}
variable {name : Name} {span : Option Span}

theorem itemWrites_all :
    (∀ write ∈ itemWrites items, allows write) ↔ ∀ item ∈ items, item.WritesOnly allows := by
  induction items with
  | nil => simp [itemWrites]
  | cons item rest ih =>
    rw [itemWrites, List.forall_mem_append, List.forall_mem_cons, ih]
    rfl

theorem entryWrites_all :
    (∀ write ∈ entryWrites entries, allows write) ↔ Entries.All (WritesOnly allows) entries := by
  unfold Entries.All
  induction entries with
  | nil => simp [entryWrites]
  | cons entry rest ih =>
    rw [entryWrites, List.forall_mem_append, List.forall_mem_append, List.forall_mem_cons, ih]
    rfl

theorem writesOnly_symbol :
    (symbol name span metadata).WritesOnly allows ↔
      Entries.All (WritesOnly allows) metadata := by
  rw [← entryWrites_all, WritesOnly, writes]

theorem writesOnly_list :
    (list items span metadata).WritesOnly allows ↔
      (∀ write ∈ ownWrite? items, allows write) ∧ ∀ item ∈ items, item.WritesOnly allows := by
  rw [← itemWrites_all, WritesOnly, writes, List.forall_mem_append]
  simp only [Option.mem_toList, Option.mem_def]

theorem writesOnly_vector :
    (vector items span metadata).WritesOnly allows ↔ ∀ item ∈ items, item.WritesOnly allows := by
  rw [← itemWrites_all, WritesOnly, writes]

theorem writesOnly_map :
    (map entries span metadata).WritesOnly allows ↔
      Entries.All (WritesOnly allows) entries := by
  rw [← entryWrites_all, WritesOnly, writes]

/-- The special forms that write have plain names. -/
theorem ownWrite?_qualified {ns base : String} {args : List Form} :
    ownWrite? (symbol (.qualified ns base) span metadata :: args) = none := by
  refine Option.bind_eq_none_iff.mpr fun form found => ?_
  have named : form.name = .qualified ns base := SpecialForm.name_of_ofName? found
  cases form with
  | define | defStruct | defInterface | defException | ns | inNs =>
    have plain := congrArg Name.ns named
    contradiction
  | _ => rfl

theorem writesOnly_binder {base : String} {bindings body : List Form}
    (quiet : ∀ args, ownWrite? (.plainSymbol base :: args) = none)
    (allBindings : ∀ form ∈ bindings, form.WritesOnly allows)
    (allBody : ∀ form ∈ body, form.WritesOnly allows) :
    (list (.plainSymbol base :: .vector bindings none [] :: body) span []).WritesOnly allows := by
  have head : (plainSymbol base).WritesOnly allows :=
    writesOnly_symbol.mpr (List.forall_mem_nil _)
  have vector : (vector bindings none []).WritesOnly allows := writesOnly_vector.mpr allBindings
  refine writesOnly_list.mpr ⟨?_, ?_⟩
  · rw [quiet]
    exact fun _ impossible => (Option.not_mem_none _ impossible).elim
  · exact List.forall_mem_cons.mpr ⟨head, List.forall_mem_cons.mpr ⟨vector, allBody⟩⟩

theorem hereditary_writesOnly (core : String) (allows : Write → Prop) :
    Hereditary core (WritesOnly allows) where
  scalar form bare := by
    cases form with
    | symbol | list | vector | map => contradiction
    | _ => exact List.forall_mem_nil _
  symbol := writesOnly_symbol.mp
  list own := (writesOnly_list.mp own).2
  vector := writesOnly_vector.mp
  map := writesOnly_map.mp
  entries := writesOnly_map.mpr
  fresh symbol temp := by
    obtain ⟨number, _, metadata⟩ := temp
    refine writesOnly_symbol.mpr ?_
    rw [metadata]
    exact List.forall_mem_nil _
  accessor {base args span} all := by
    have head : (symbol (.qualified core base) span []).WritesOnly allows :=
      writesOnly_symbol.mpr (List.forall_mem_nil _)
    refine writesOnly_list.mpr ⟨?_, List.forall_mem_cons.mpr ⟨head, all⟩⟩
    rw [ownWrite?_qualified]
    exact fun _ impossible => (Option.not_mem_none _ impossible).elim
  letForm := writesOnly_binder fun _ => by rfl
  loopForm := writesOnly_binder fun _ => by rfl

theorem WritesOnly.permitted {form head : Form} {args : List Form} {special : SpecialForm}
    (own : form.WritesOnly allows) (isList : form = .list (head :: args) span metadata)
    (found : Analyzer.special? head = some special) :
    ∀ write ∈ special.write? args, allows write := by
  subst isList
  have writes := (writesOnly_list.mp own).1
  rw [ownWrite?, found] at writes
  exact writes

end Form

theorem Permits.of_step {analyzer : Analyzer} {allows : Write → Prop}
    {R : Option Frame → State → State → Prop} (permits : Permits analyzer allows R)
    (visit : Visit) (form : Form) (scope : Scope)
    (visits : ∀ inner scope, Tracked (R scope.frame) (visit inner scope))
    (own : form.WritesOnly allows) :
    Tracked (R scope.frame) (analyzer.analyzeForm visit outOfSteps form scope) := by
  refine permits.of_analyzeForm visits (fun _ _ => permits.of_failAt) ?_
  intro head args span metadata special isList found
  exact permits.of_analyzeSpecial visits (own.permitted isList found)

section Unhosted

variable {analyzer : Analyzer} (unhosted : analyzer.host = .none) {allows : Write → Prop}
variable {R : Option Frame → State → State → Prop} {form : Form}
variable (own : form.WritesOnly allows) {scope : Scope}

include unhosted own

/-- What allowed writes keep is kept by the analysis of a form that makes no others. -/
theorem Permits.of_analyze (permits : Permits analyzer allows R) :
    Tracked (R scope.frame) (analyzer.analyze form scope) :=
  Analyzer.analyze_of_good unhosted (Form.hereditary_writesOnly _ allows)
    (Q := fun scope step => Tracked (R scope.frame) step) (fun _ _ => permits.of_failAt)
    permits.of_step own scope

/-- The same for any number of steps. -/
theorem Permits.of_descend (permits : Permits analyzer allows R) {expand : Visit} (depth : Nat) :
    Tracked (R scope.frame) (analyzer.descend expand depth form scope) :=
  Analyzer.descend_of_good unhosted (Form.hereditary_writesOnly _ allows)
    (Q := fun scope step => Tracked (R scope.frame) step) (fun _ _ => permits.of_failAt)
    permits.of_step depth own scope

theorem Constructs.of_analyze {P : State → Node → State → Prop}
    (constructs : Constructs analyzer allows R P) {s t : State} {node : Node}
    (run : Gives (analyzer.analyze form scope) s node t) : Built P scope s node t := by
  revert s node t
  refine Analyzer.analyze_of_good unhosted (Form.hereditary_writesOnly _ allows)
    (Q := fun scope step => ∀ {s node t}, Gives step s node t → Built P scope s node t) ?_ ?_ own
    scope
  · exact fun _ _ _ _ _ impossible => (not_gives_failAt impossible).elim
  · intro visit form scope visits own s node t run
    refine constructs.of_analyzeForm (fun {inner scope _ _ _} => visits inner scope) ?_ ?_ ?_ run
    · exact fun impossible => (not_gives_failAt impossible).elim
    · exact fun _ _ => constructs.tracks.of_failAt
    · intro head args span metadata special isList found
      exact own.permitted isList found

end Unhosted

end LispFront
