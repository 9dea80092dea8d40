import LispFront.Proofs.Locality
import LispFront.Proofs.Registry

/-! A namespace form and the definition of an interface or an exception write to the registry only
when nothing can go wrong any more. A plain definition is registered before its value is analyzed
and taken back when that fails; since the value leaves the registry as it found it, the registry is
then the one from before (`registry_of_fails_analyzeDefine`). -/

namespace LispFront

theorem SpecialForm.ofName?_name (form : SpecialForm) :
    SpecialForm.ofName? form.name = some form := by
  cases form <;> rfl

/-- An analysis is one step, with more of them for the parts of the form. -/
theorem Analyzer.analyze_eq_analyzeForm (analyzer : Analyzer) (form : Form) (scope : Scope) :
    ∃ expand depth, analyzer.analyze form scope =
      analyzer.analyzeForm (analyzer.descend expand depth) expand form scope := by
  have nested : form.depth ≠ 0 := by cases form <;> simp [Form.depth]
  obtain ⟨depth, enough⟩ : ∃ depth, Analyzer.stepsFor form = depth + 1 :=
    Nat.exists_eq_succ_of_ne_zero (Nat.mul_ne_zero (by decide) nested)
  have step (expand : Visit) : analyzer.descend expand (Analyzer.stepsFor form) form scope =
      analyzer.analyzeForm (analyzer.descend expand depth) expand form scope := by
    rw [enough]
    rfl
  unfold Analyzer.analyze
  cases analyzer.expansionLimit with
  | zero => exact ⟨_, depth, step _⟩
  | succ expansions => exact ⟨_, depth, step (analyzer.analyzeWithin expansions)⟩

theorem Analyzer.analyze_special (analyzer : Analyzer) (form : SpecialForm)
    (nameSpan span : Option Span) (nameMetadata metadata : Entries) (args : List Form)
    (scope : Scope) : ∃ expand depth,
    analyzer.analyze (.list (.symbol form.name nameSpan nameMetadata :: args) span metadata) scope =
      analyzer.analyzeSpecial (analyzer.descend expand depth) form args span scope := by
  obtain ⟨expand, depth, analyzed⟩ := analyzer.analyze_eq_analyzeForm
    (.list (.symbol form.name nameSpan nameMetadata :: args) span metadata) scope
  have special : Analyzer.special? (.symbol form.name nameSpan nameMetadata) = some form :=
    SpecialForm.ofName?_name form
  refine ⟨expand, depth, ?_⟩
  rw [analyzed]
  simp only [Analyzer.analyzeForm, special]

section Failure

variable {args : List Form} {span : Option Span} {scope : Scope} {s t : State}
variable {error : AnalysisError} {settings : Settings}

theorem state_of_fails_analyzeNs (run : Fails (analyzeNs settings args span scope) s error t) :
    s = t := by
  simp only [analyzeNs, fails_bind, fails_ofExcept, not_fails_changeRegistry, not_fails_pure,
    and_false, exists_false, or_false] at run
  exact run.2

theorem state_of_fails_analyzeInNs
    (run : Fails (analyzeInNs settings args span scope) s error t) : s = t := by
  unfold analyzeInNs at run
  split at run
  · simp only [fails_bind, fails_ofExcept, gives_ofExcept, not_fails_changeRegistry,
      not_fails_pure, and_false, exists_false, or_false] at run
    rcases run with ⟨_, rfl⟩ | ⟨_, _, ⟨_, rfl⟩, _, rfl⟩
    · rfl
    · rfl
  · exact (fails_fail.mp run).2

theorem state_of_fails_analyzeDefInterface
    (run : Fails (analyzeDefInterface args span scope) s error t) : s = t := by
  unfold analyzeDefInterface at run
  split at run
  · exact (fails_fail.mp run).2
  · simp only [fails_bind, fails_ofExcept, gives_ofExcept, gives_registry, not_fails_registry,
      not_fails_changeRegistry, not_fails_pure, and_false, exists_false, or_false,
      false_or] at run
    rcases run with ⟨_, rfl⟩ | ⟨_, _, ⟨_, rfl⟩, ⟨_, rfl⟩ | ⟨_, _, ⟨_, rfl⟩, _, _, ⟨_, rfl⟩, run⟩⟩
    · rfl
    · rfl
    · exact state_of_fails_define run

theorem state_of_fails_analyzeDefException
    (run : Fails (analyzeDefException args span scope) s error t) : s = t := by
  unfold analyzeDefException at run
  split at run
  · simp only [fails_bind, fails_ofExcept, gives_ofExcept, gives_registry, not_fails_registry,
      not_fails_pure, and_false, exists_false, or_false, false_or] at run
    rcases run with ⟨_, rfl⟩ | ⟨_, _, ⟨_, rfl⟩, _, _, ⟨_, rfl⟩, run⟩
    · rfl
    · exact state_of_fails_define run
  · exact (fails_fail.mp run).2

/-- A definition fails before anything is written, or because of what is analyzed after
its name has been registered; then that is taken back. -/
theorem fails_analyzeDefine {visit : Visit}
    (run : Fails (analyzeDefine visit args span scope) s error t) :
    s = t ∨ ∃ metadataForm init name metadata previous registry initScope u,
      Definition.parts args span = .ok (metadataForm, init) ∧
      definedName .define args span = .ok name ∧
      Definition.collectMetadata name metadataForm span = .ok metadata ∧
      s.registry.addDefinition s.registry.current name.base metadata = .ok (previous, registry) ∧
      Fails (visitBoth visit (.map metadata span []) init initScope) { s with registry } error u ∧
      { u with registry := u.registry.restoreDefinition s.registry.current name.base previous } =
        t := by
  unfold analyzeDefine at run
  split at run
  · simp only [fails_bind, fails_ofExcept, gives_ofExcept, gives_registry, not_fails_registry,
      fails_onFailure, not_fails_pure, and_false, exists_false, or_false, false_or] at run
    rcases run with ⟨_, same⟩ | ⟨⟨metadataForm, init⟩, _, ⟨parts, rfl⟩, run⟩
    · exact .inl same
    rcases run with ⟨_, same⟩ | ⟨name, _, ⟨named, rfl⟩, run⟩
    · exact .inl same
    rcases run with ⟨_, same⟩ | ⟨metadata, _, ⟨collected, rfl⟩, _, _, ⟨rfl, rfl⟩, run⟩
    · exact .inl same
    rcases run with refused | ⟨previous, _, defined, u, failed, taken⟩
    · exact .inl (state_of_fails_define refused)
    obtain ⟨registry, added, rfl⟩ := gives_define.mp defined
    exact .inr ⟨metadataForm, init, name, metadata, previous, registry, _, u, parts, named,
      collected, added, failed, taken⟩
  · exact .inl (fails_fail.mp run).2

/-- Whatever the value of a rejected definition has done, its name is as it was. -/
theorem definition?_of_fails_analyzeDefine {visit : Visit} {name : Symbol}
    (named : args.head?.bind Form.plainSymbol? = some name)
    (run : Fails (analyzeDefine visit args span scope) s error t) :
    t.registry.definition? s.registry.current name.base =
      s.registry.definition? s.registry.current name.base := by
  rcases fails_analyzeDefine run with
    rfl | ⟨_, _, other, _, previous, _, _, u, _, otherNamed, _, added, _, rfl⟩
  · rfl
  · obtain rfl : name = other := by
      rw [definedName_eq_ok otherNamed] at named
      exact (Option.some.inj named).symm
    obtain ⟨_, rfl, _⟩ := Registry.addDefinition_eq_ok.mp added
    rw [Registry.definition?_restoreDefinition, if_pos ⟨rfl, rfl⟩]

end Failure

theorem Registry.Made.register {registry : Registry} (made : registry.Made) {ns : String}
    (declaration : Declaration) : (declaration.register ns registry).Made := by
  rw [declaration.register_eq]
  exact (made.setCurrent ns).note ns fun _ => rfl

def RegistryKept (_ : Option Frame) (s t : State) : Prop := t.registry = s.registry

section Unhosted

variable {analyzer : Analyzer} (unhosted : analyzer.host = .none)

include unhosted

theorem steady_registryKept : Steady analyzer RegistryKept :=
  .between_registries (fun first second => second = first) unhosted (fun _ => rfl)
    fun earlier later => later.trans earlier

/-- An analysis changes a registry only by the operations on it. -/
theorem tracks_made : Tracks analyzer fun _ s t => s.registry.Made → t.registry.Made where
  toSteady := .between_registries (fun first second => first.Made → second.Made) unhosted
    (fun _ => id) fun earlier later made => later (earlier made)
  change {_ s _ _} _ change made := by
    cases change with
    | define added => exact .define made added
    | @interface base _ _ registry methods added =>
      have noted : (registry.addInterface s.registry.current base methods).Made :=
        (made.define added).note _ fun _ => by rfl
      exact noted
    | declare read => exact made.register _
    | switch valid => exact made.setCurrent _
  undo {_ s t base metadata previous registry} _ added kept made := by
    refine .restore (kept (.define made added)) _ _ _ fun definition found => ?_
    obtain ⟨_, rfl, _⟩ := Registry.addDefinition_eq_ok.mp added
    exact made.filed found

variable {args : List Form} {span : Option Span} {scope : Scope} {s t : State}
variable {error : AnalysisError} (avoid : ∀ arg ∈ args, arg.Avoids Name.changesRegistry)

include avoid

/-- The metadata and the value of a definition leave the registry as it is, so taking the
definition back gives the registry from before it. -/
theorem registry_of_fails_analyzeDefine {expand : Visit} {depth : Nat}
    (present : s.registry.has s.registry.current = true)
    (run : Fails (analyzeDefine (analyzer.descend expand depth) args span scope) s error t) :
    t.registry = s.registry := by
  rcases fails_analyzeDefine run with
    rfl | ⟨metadataForm, init, name, metadata, previous, registry, initScope, u, parts, named,
      collected, added, failed, rfl⟩
  · rfl
  have initAvoids := avoid init (Definition.mem_of_parts parts).2
  have mapAvoids : (Form.map metadata span []).Avoids Name.changesRegistry :=
    (unwritten_changesRegistry.hereditary analyzer.settings.coreNamespace).collected avoid parts
      named collected
  have steady := steady_registryKept unhosted
  have tracked : Tracked (RegistryKept initScope.frame)
      (visitBoth (analyzer.descend expand depth) (.map metadata span []) init initScope) := by
    refine steady.bind (steady.of_descend unhosted depth initScope mapAvoids) fun _ => ?_
    exact steady.bind (steady.of_descend unhosted depth initScope initAvoids) fun _ =>
      steady.of_pure
  have kept : u.registry = registry := tracked.of_run failed
  rw [kept]
  exact Registry.restoreDefinition_addDefinition present added

end Unhosted

/-- With no host, in a registry that has its current namespace, a rejected namespace form,
definition, interface or exception that mentions no special form which writes to the registry
leaves the registry as it was. With any host and any value, a rejected definition leaves its name
as it was. -/
theorem rejected_form_keeps_registry {analyzer : Analyzer} {form : SpecialForm}
    {nameSpan span : Option Span} {nameMetadata metadata : Entries} {args : List Form}
    {scope : Scope} {s t : State} {error : AnalysisError}
    (run : analyzer.analyze (.list (.symbol form.name nameSpan nameMetadata :: args) span metadata)
      scope s = (.error error, t)) :
    (analyzer.host = .none → s.registry.has s.registry.current = true →
      form ∈ [.ns, .inNs, .define, .defInterface, .defException] →
      (∀ arg ∈ args, arg.Avoids Name.changesRegistry) → t.registry = s.registry) ∧
    (∀ name, form = .define → args.head?.bind Form.plainSymbol? = some name →
      t.registry.definition? s.registry.current name.base =
        s.registry.definition? s.registry.current name.base) := by
  obtain ⟨expand, depth, special⟩ :=
    analyzer.analyze_special form nameSpan span nameMetadata metadata args scope
  rw [special] at run
  refine ⟨fun unhosted present head avoid => ?_, fun name head named => ?_⟩
  · simp only [List.mem_cons, List.not_mem_nil, or_false] at head
    rcases head with rfl | rfl | rfl | rfl | rfl
    · rw [state_of_fails_analyzeNs run]
    · rw [state_of_fails_analyzeInNs run]
    · exact registry_of_fails_analyzeDefine unhosted avoid present run
    · rw [state_of_fails_analyzeDefInterface run]
    · rw [state_of_fails_analyzeDefException run]
  · subst head
    exact definition?_of_fails_analyzeDefine named run

/-- The form `(def x (do x missing))`, whose value sees the name that is being defined. -/
def Form.selfReference : Form :=
  .list [.symbol SpecialForm.define.name none [], .plainSymbol "x",
    .list [.plainSymbol "do", .plainSymbol "x", .plainSymbol "missing"] none []] none []

set_option maxRecDepth 10000 in
theorem rejected_form_keeps_registry_selfReference : ∃ t,
    ({} : Analyzer).analyze .selfReference .top { registry := .ofSettings {} } =
      (.error { fault := .unresolvedSymbol (.plain "missing") }, t) ∧
    t.registry = .ofSettings {} ∧ t.registry.definition? "user" "x" = none := by
  obtain ⟨t, run⟩ : ∃ t, ({} : Analyzer).analyze .selfReference .top
      { registry := .ofSettings {} } =
        (.error { fault := .unresolvedSymbol (.plain "missing") }, t) := ⟨_, rfl⟩
  obtain ⟨whole, own⟩ := rejected_form_keeps_registry run
  refine ⟨t, run, whole rfl rfl (by decide) ?_, own (.plain "x") rfl rfl⟩
  simp only [List.forall_mem_cons, List.not_mem_nil, false_implies, implies_true, and_true]
  exact ⟨rfl, rfl⟩

end LispFront
