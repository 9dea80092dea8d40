import LispFront.Proofs.Agreement
import LispFront.Proofs.Mentions
import LispFront.Proofs.Registry

/-! With no host, an analysis sees no forms but those that rules make of the form it starts at
(`Analyzer.analyze_of_good`). So what all special forms but some keep is kept by the analysis of a
form that does not mention the others (`Steady.of_descend`). -/

namespace LispFront

variable {E : AnalysisError → Prop} {good : Form → Prop}

theorem genuine_of_fails_define {name : Symbol} {metadata : Entries} {s t : State}
    {error : AnalysisError} (run : Fails (AnalyzeM.define name metadata) s error t) :
    error.Genuine := by
  obtain ⟨fault, refused, rfl, _⟩ := fails_define.mp run
  obtain ⟨_, _, rfl⟩ := Registry.addDefinition_eq_error.mp refused
  simp

/-- A state looks the same as itself. -/
theorem mirror_eq {core : String} (genuine : ∀ error : AnalysisError, error.Genuine → E error) :
    Mirror core (fun s t => s = t) E where
  genuine := genuine
  names := congrArg _
  drawn same names := congrArg (fun state : State => { state with names }) same
  frames same := by rw [same]
  opened := congrArg _
  restarted same frame := congrArg _ same
  current same := by rw [same]
  classAlias same symbol := by rw [same]
  global same symbol := by rw [same]
  interface same ns base := by rw [same]
  define same name metadata := by
    subst same
    refine ⟨rfl, rfl, fun error failed => genuine error ?_⟩
    exact genuine_of_fails_define (Prod.ext failed rfl)
  undo same ns base previous := congrArg (fun state : State =>
    { state with registry := state.registry.restoreDefinition ns base previous }) same
  note same ns base methods := congrArg (fun state : State =>
    { state with registry := state.registry.addInterface ns base methods }) same

theorem agrees_eq {α : Type} {x y : AnalyzeM α} :
    Agrees (fun s t => s = t) E x y ↔
      x = y ∧ ∀ s error t, Fails x s error t → E error := by
  constructor
  · intro agrees
    refine ⟨funext fun s => ?_, fun s error t failed => ?_⟩
    · exact Prod.ext (agrees s s rfl).result (agrees s s rfl).states
    · exact (agrees s s rfl).failure error (congrArg Prod.fst failed)
  · rintro ⟨rfl, failure⟩ s _ rfl
    exact ⟨rfl, rfl, fun error failed => failure s error _ (Prod.ext failed rfl)⟩

section Unhosted

variable {analyzer : Analyzer} (unhosted : analyzer.host = .none)
variable {first second expand other : Visit}

include unhosted

/-- The rule of a form depends on the visits of the forms that it prompts, and fails for its own
reasons or for theirs. -/
theorem Analyzer.alike_analyzeForm (genuine : ∀ error : AnalysisError, error.Genuine → E error)
    {form : Form} (alike : ∀ inner, form.Prompts analyzer.settings.coreNamespace inner →
      Alike (fun s t => s = t) E first second inner) :
    Alike (fun s t => s = t) E (analyzer.analyzeForm first expand)
      (analyzer.analyzeForm second other) form := by
  have mirror : Mirror analyzer.settings.coreNamespace (fun s t => s = t) E := mirror_eq genuine
  have switched (change : Registry → Registry) : Agrees (fun s t => s = t) E
      (AnalyzeM.changeRegistry change) (AnalyzeM.changeRegistry change) :=
    agrees_eq.mpr ⟨rfl, fun _ _ _ failed => (not_fails_changeRegistry failed).elim⟩
  refine mirror.of_analyzeForm rfl unhosted alike ?_
  rintro special args span scope _ (rfl | rfl)
  · exact (mirror.of_ofExcept Declaration.frank_ofArgs).bind fun _ =>
      (switched _).bind fun _ => .pure
  · change Agrees _ E (analyzeInNs analyzer.settings args span scope) _
    unfold Analyzer.analyzeSpecial analyzeInNs
    split
    · refine (mirror.of_ofExcept Declaration.frank_inNamespace).bind fun _ => ?_
      refine (mirror.of_ofExcept Settings.frank_checkNamespace).bind fun _ => ?_
      exact (switched _).bind fun _ => .pure
    · exact mirror.of_fail (by simp)

end Unhosted

/-- Fails at once. -/
def outOfSteps : Visit := fun form _ => AnalyzeM.failAt .nestingLimit form

open Classical in
/-- Visits only forms that have the property, and fails on all others. -/
noncomputable def confine (good : Form → Prop) (visit : Visit) : Visit := fun form scope =>
  if good form then visit form scope else outOfSteps form scope

theorem alike_confine (visit : Visit) {form : Form} (own : good form) :
    Alike (fun s t => s = t) (fun _ => True) visit (confine good visit) form := fun scope =>
  agrees_eq.mpr ⟨by simp [confine, own], fun _ _ _ _ => trivial⟩

namespace Analyzer

variable {analyzer : Analyzer} (unhosted : analyzer.host = .none)
variable (hereditary : Form.Hereditary analyzer.settings.coreNamespace good)
variable {Q : Scope → AnalyzeM Node → Prop}
variable (stops : ∀ form scope, Q scope (outOfSteps form scope))
variable (step : ∀ visit form scope, (∀ inner scope, Q scope (visit inner scope)) → good form →
  Q scope (analyzer.analyzeForm visit outOfSteps form scope))

include unhosted hereditary stops step

/-- What one step keeps, given that all visits keep it, is kept by all steps from a form with the
property on. The visits that a step is given may be taken to fail on all other forms. -/
theorem descend_of_good {expand : Visit} (depth : Nat) {form : Form} (own : good form)
    (scope : Scope) : Q scope (analyzer.descend expand depth form scope) := by
  induction depth generalizing form scope with
  | zero => exact stops form scope
  | succ depth ih =>
    have visits (inner : Form) (innerScope : Scope) :
        Q innerScope (confine good (analyzer.descend expand depth) inner innerScope) := by
      unfold confine
      split
      next inside => exact ih inside innerScope
      next => exact stops inner innerScope
    have confined : analyzer.descend expand (depth + 1) form scope =
        analyzer.analyzeForm (confine good (analyzer.descend expand depth)) outOfSteps form scope :=
      (agrees_eq.mp (analyzer.alike_analyzeForm unhosted (fun _ _ => trivial)
        (fun _ prompts => alike_confine _ (hereditary.prompts own prompts)) scope)).1
    rw [confined]
    exact step _ form scope visits own

theorem analyze_of_good {form : Form} (own : good form) (scope : Scope) :
    Q scope (analyzer.analyze form scope) := by
  unfold analyze
  cases analyzer.expansionLimit with
  | zero => exact descend_of_good unhosted hereditary stops step _ own scope
  | succ expansions => exact descend_of_good unhosted hereditary stops step _ own scope

end Analyzer

/-- The names of the special forms that write to the registry. -/
def Name.changesRegistry (name : Name) : Bool :=
  (SpecialForm.ofName? name).any SpecialForm.changesRegistry

theorem SpecialForm.name_of_ofName? {name : Name} {form : SpecialForm}
    (found : SpecialForm.ofName? name = some form) : form.name = name := by
  simpa using List.find?_some found

/-- The functions that lowering calls are no special forms. -/
theorem SpecialForm.ofName?_accessor {core base : String}
    (isAccessor : base = "get" ∨ base = "drop") : ofName? (.qualified core base) = none := by
  cases found : ofName? (.qualified core base) with
  | none => rfl
  | some form =>
    have named := name_of_ofName? found
    rcases isAccessor with rfl | rfl <;> cases form <;>
      simp [SpecialForm.name, Name.plain, Name.qualified] at named

theorem Name.spelling_of_changesRegistry {name : Name} (changes : name.changesRegistry = true) :
    name.ns = none ∧ name.base.toList.head? ≠ some '_' := by
  unfold Name.changesRegistry at changes
  cases found : SpecialForm.ofName? name with
  | none =>
    rw [found] at changes
    contradiction
  | some form =>
    rw [found] at changes
    rw [← SpecialForm.name_of_ofName? found]
    cases form <;> first | contradiction | exact ⟨rfl, by decide⟩

/-- Lowering writes plain names of other special forms and names that start with an
underscore. -/
theorem unwritten_changesRegistry : Unwritten Name.changesRegistry where
  letIn := rfl
  loop := rfl
  qualified ns base := Bool.eq_false_iff.mpr fun changes => by
    have plain := (Name.spelling_of_changesRegistry changes).1
    contradiction
  temp number := Bool.eq_false_iff.mpr fun changes => by
    have start := (Name.spelling_of_changesRegistry changes).2
    simp [NameSupply.numbered, NameSupply.tempStem, Symbol.plain, Name.plain] at start

theorem quiet_of_special? {head : Form} {form : SpecialForm}
    (avoids : head.Avoids Name.changesRegistry) (found : Analyzer.special? head = some form) :
    form.changesRegistry = false := by
  obtain ⟨symbol, isSymbol, named⟩ := Option.bind_eq_some_iff.mp found
  cases head with
  | symbol name span metadata =>
    obtain rfl := Option.some.inj isSymbol
    have quiet := (Form.avoids_symbol.mp avoids).1
    rw [Name.changesRegistry, named] at quiet
    exact quiet
  | _ => contradiction

/-- What all but the avoided special forms keep is kept by the analysis of a form that
mentions none of them. -/
theorem Steady.of_descend {analyzer : Analyzer} (unhosted : analyzer.host = .none)
    {R : Option Frame → State → State → Prop} (steady : Steady analyzer R) {expand : Visit}
    (depth : Nat) {form : Form} (scope : Scope) (avoids : form.Avoids Name.changesRegistry) :
    Tracked (R scope.frame) (analyzer.descend expand depth form scope) := by
  refine Analyzer.descend_of_good unhosted
    (unwritten_changesRegistry.hereditary analyzer.settings.coreNamespace)
    (Q := fun scope step => Tracked (R scope.frame) step) (fun _ _ => steady.of_failAt) ?_ depth
    avoids scope
  intro visit form scope visits avoids
  refine steady.of_analyzeForm visits (fun _ _ => steady.of_failAt) ?_
  rintro head args span metadata special rfl found
  have own := (Form.avoids_list.mp avoids).1 head List.mem_cons_self
  exact steady.of_analyzeSpecial visits (quiet_of_special? own found)

end LispFront
