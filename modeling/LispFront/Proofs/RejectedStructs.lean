import LispFront.Proofs.Rollback
import LispFront.Proofs.Writes

/-! A struct is defined before its methods are looked at, and the definition is not taken back when
one of them is wrong. So a struct is rejected without a trace only if its name or its fields are
wrong, or if its name is taken (`rejected_struct_keeps_definitions_iff`). After any other error the
name is used up. -/

namespace LispFront

/-- The rule of a special form looks only at forms that rules make of its arguments. -/
theorem Analyzer.analyzeSpecial_confine {analyzer : Analyzer} (unhosted : analyzer.host = .none)
    {good : Form → Prop} (hereditary : Form.Hereditary analyzer.settings.coreNamespace good)
    {form : SpecialForm} {args : List Form} (head : good (.symbol form.name none []))
    (all : ∀ arg ∈ args, good arg) (visit : Visit) (span : Option Span) (scope : Scope) :
    analyzer.analyzeSpecial visit form args span scope =
      analyzer.analyzeSpecial (confine good visit) form args span scope := by
  have items := List.forall_mem_cons.mpr ⟨head, all⟩
  have alike : Alike (fun s t => s = t) (fun _ => True) (analyzer.analyzeForm visit outOfSteps)
      (analyzer.analyzeForm (confine good visit) outOfSteps)
      (.list (.symbol form.name none [] :: args) span []) :=
    analyzer.alike_analyzeForm unhosted (fun _ _ => trivial) fun _ prompts =>
      alike_confine visit (hereditary.list_prompts items prompts)
  have special : Analyzer.special? (.symbol form.name none []) = some form :=
    SpecialForm.ofName?_name form
  have same := (agrees_eq.mp (alike scope)).1
  simpa only [Analyzer.analyzeForm, special] using same

namespace Struct

/-- Number of arguments, name and fields are as they should be. -/
structure Headed (args : List Form) (span : Option Span) (name : Symbol) : Prop where
  count : 2 ≤ args.length
  named : definedName .defStruct args span = .ok name
  fielded : ∃ symbols, fields args span = .ok symbols

/-- What the name of a struct is defined as. -/
def definition (registry : Registry) (name : Symbol) (span : Option Span) : Definition :=
  { ns := registry.current
    base := name.base
    metadata := (Entries.flagged "struct").located span }

/-- What a rejected struct leaves: the registry as it was, or with its own definition. The second
happens as soon as name and fields are in order and the name may be defined. -/
def Leaves (args : List Form) (span : Option Span) (before after : Registry) : Prop :=
  (after = before ∧ ∀ name, Headed args span name →
    (before.definition? before.current name.base).isSome = true ∧
      before.allowRedefinition = false) ∨
  ∃ name previous, Headed args span name ∧
    before.addDefinition before.current name.base ((Entries.flagged "struct").located span) =
      .ok (previous, after)

variable {args : List Form} {span : Option Span} {name other : Symbol}

theorem Headed.unique (first : Headed args span name) (second : Headed args span other) :
    name = other := Except.ok.inj (first.named.symm.trans second.named)

end Struct

section Rule

variable {settings : Settings} {visit : Visit} {args : List Form} {span : Option Span}
variable {scope : Scope} {s t : State} {error : AnalysisError} {name : Symbol}

/-- A struct whose name is taken is refused for that. -/
theorem analyzeDefStruct_of_taken (headed : Struct.Headed args span name)
    (taken : (s.registry.definition? s.registry.current name.base).isSome = true)
    (fixed : s.registry.allowRedefinition = false) :
    Fails (analyzeDefStruct settings visit args span scope) s
      { fault := .duplicateDefinition s.registry.current name.base
        span := name.span
        cause := some (Fault.message (.duplicateDefinition s.registry.current name.base)) } s := by
  obtain ⟨count, named, symbols, fielded⟩ := headed
  have refused : s.registry.addDefinition s.registry.current name.base
      ((Entries.flagged "struct").located span) =
        .error (.duplicateDefinition s.registry.current name.base) :=
    Registry.addDefinition_eq_error.mpr ⟨taken, fixed, rfl⟩
  unfold analyzeDefStruct
  rw [if_neg (by omega)]
  refine fails_bind.mpr (.inr ⟨name, s, gives_ofExcept.mpr ⟨named, rfl⟩, ?_⟩)
  refine fails_bind.mpr (.inr ⟨symbols, s, gives_ofExcept.mpr ⟨fielded, rfl⟩, ?_⟩)
  refine fails_bind.mpr (.inr ⟨s.registry, s, gives_registry.mpr ⟨rfl, rfl⟩, ?_⟩)
  exact fails_bind.mpr (.inl (fails_define.mpr ⟨_, refused, rfl, rfl⟩))

theorem leaves_of_fails_analyzeDefStruct {analyzer : Analyzer} (unhosted : analyzer.host = .none)
    (visits : Follows RegistryKept visit)
    (run : Fails (analyzeDefStruct analyzer.settings visit args span scope) s error t) :
    Struct.Leaves args span s.registry t.registry := by
  have steady := steady_registryKept unhosted
  unfold analyzeDefStruct at run
  split at run
  next few =>
    obtain ⟨_, rfl⟩ := fails_fail.mp run
    refine .inl ⟨rfl, fun name headed => ?_⟩
    have count := headed.count
    omega
  next many =>
    simp only [fails_bind, fails_ofExcept, gives_ofExcept, gives_registry, not_fails_registry,
      not_fails_pure, and_false, exists_false, or_false, false_or] at run
    rcases run with ⟨unnamed, rfl⟩ | ⟨name, _, ⟨named, rfl⟩, run⟩
    · refine .inl ⟨rfl, fun name headed => ?_⟩
      rw [headed.named] at unnamed
      contradiction
    rcases run with ⟨wrong, rfl⟩ | ⟨symbols, _, ⟨fielded, rfl⟩, _, _, ⟨rfl, rfl⟩, run⟩
    · refine .inl ⟨rfl, fun name headed => ?_⟩
      obtain ⟨symbols, fielded⟩ := headed.fielded
      rw [fielded] at wrong
      contradiction
    have headed : Struct.Headed args span name := ⟨by omega, named, symbols, fielded⟩
    rcases run with refused | ⟨previous, _, defined, run⟩
    · obtain ⟨_, duplicate, _, rfl⟩ := fails_define.mp refused
      obtain ⟨taken, fixed, _⟩ := Registry.addDefinition_eq_error.mp duplicate
      refine .inl ⟨rfl, fun other otherHeaded => ?_⟩
      rw [← headed.unique otherHeaded]
      exact ⟨taken, fixed⟩
    · obtain ⟨registry, added, rfl⟩ := gives_define.mp defined
      have kept : t.registry = registry := by
        rcases run with ⟨_, rfl⟩ | ⟨groups, _, ⟨_, rfl⟩, failed⟩
        · rfl
        · have tracked {scope : Scope} : Tracked (RegistryKept none)
              (Struct.analyzeGroups analyzer.settings visit scope groups) :=
            steady.of_analyzeGroups visits
          exact tracked.of_run failed
      exact .inr ⟨name, previous, headed, by rw [kept, added]⟩

end Rule

/-- With no host, forms that write nothing leave the registry as it is. -/
theorem follows_confine_registryKept {analyzer : Analyzer} (unhosted : analyzer.host = .none)
    (expand : Visit) (depth : Nat) :
    Follows RegistryKept
      (confine (Form.WritesOnly fun _ => False) (analyzer.descend expand depth)) := by
  have permits : Permits analyzer (fun _ => False) RegistryKept :=
    { steady_registryKept unhosted with
      change := fun impossible => impossible.elim
      undo := fun impossible => impossible.elim }
  intro form scope
  unfold confine
  split
  next quiet => exact permits.of_descend unhosted quiet depth
  next => exact permits.of_failAt

/-- If the arguments write nothing, then only forms that write nothing are looked at. -/
theorem Analyzer.analyzeSpecial_quiet {analyzer : Analyzer} (unhosted : analyzer.host = .none)
    {form : SpecialForm} {args : List Form} (quiet : ∀ arg ∈ args, arg.writes = [])
    (visit : Visit) (span : Option Span) (scope : Scope) :
    analyzer.analyzeSpecial visit form args span scope =
      analyzer.analyzeSpecial (confine (Form.WritesOnly fun _ => False) visit) form args span
        scope := by
  refine Analyzer.analyzeSpecial_confine unhosted (Form.hereditary_writesOnly _ _)
    (List.forall_mem_nil _) (fun arg member => ?_) visit span scope
  rw [Form.WritesOnly, quiet arg member]
  exact List.forall_mem_nil _

section Rejected

variable {analyzer : Analyzer} {nameSpan span : Option Span} {nameMetadata metadata : Entries}
variable {args : List Form} {scope : Scope} {s t : State} {error : AnalysisError}

theorem leaves_of_rejected_struct (unhosted : analyzer.host = .none)
    (quiet : ∀ arg ∈ args, arg.writes = [])
    (run : analyzer.analyze
      (.list (.symbol SpecialForm.defStruct.name nameSpan nameMetadata :: args) span metadata)
      scope s = (.error error, t)) :
    Struct.Leaves args span s.registry t.registry := by
  obtain ⟨expand, depth, special⟩ :=
    analyzer.analyze_special .defStruct nameSpan span nameMetadata metadata args scope
  rw [special, Analyzer.analyzeSpecial_quiet unhosted quiet] at run
  exact leaves_of_fails_analyzeDefStruct unhosted
    (follows_confine_registryKept unhosted expand depth) run

/-- With no host, and with no other defining or namespace form inside of it, a rejected struct keeps
all definitions exactly if name or fields are wrong, or if the name is taken: by the same
definition, where redefinition is allowed. If name or fields are wrong the whole registry is
kept. A name that was free and may not be redefined is used up otherwise: the next struct of this
name is refused as a duplicate. -/
theorem rejected_struct_keeps_definitions_iff (unhosted : analyzer.host = .none)
    (quiet : ∀ arg ∈ args, arg.writes = [])
    (run : analyzer.analyze
      (.list (.symbol SpecialForm.defStruct.name nameSpan nameMetadata :: args) span metadata)
      scope s = (.error error, t)) :
    ((∀ ns base, t.registry.definition? ns base = s.registry.definition? ns base) ↔
      ∀ name, Struct.Headed args span name → ∃ previous,
        s.registry.definition? s.registry.current name.base = some previous ∧
        (s.registry.allowRedefinition = true →
          previous = Struct.definition s.registry name span)) ∧
    ((¬ ∃ name, Struct.Headed args span name) → t.registry = s.registry) ∧
    (∀ name, Struct.Headed args span name →
      s.registry.definition? s.registry.current name.base = none →
      s.registry.allowRedefinition = false →
      ∀ nameSpan span nameMetadata metadata args scope u other, u.registry = t.registry →
        Struct.Headed args span other → other.base = name.base →
        analyzer.analyze
          (.list (.symbol SpecialForm.defStruct.name nameSpan nameMetadata :: args) span metadata)
          scope u =
        (.error {
          fault := .duplicateDefinition s.registry.current name.base
          span := other.span
          cause := some (Fault.message (.duplicateDefinition s.registry.current name.base)) },
          u)) := by
  rcases leaves_of_rejected_struct unhosted quiet run with
    ⟨kept, taken⟩ | ⟨name, previous, headed, added⟩
  · refine ⟨iff_of_true (fun _ _ => by rw [kept]) fun name headed => ?_, fun _ => kept,
      fun name headed absent => ?_⟩
    · obtain ⟨defined, fixed⟩ := taken name headed
      obtain ⟨previous, found⟩ := Option.isSome_iff_exists.mp defined
      exact ⟨previous, found, by simp [fixed]⟩
    · have defined := (taken name headed).1
      simp [absent] at defined
  · obtain ⟨free, _, after⟩ := Registry.addDefinition_eq_ok.mp added
    refine ⟨?_, fun unheaded => (unheaded ⟨name, headed⟩).elim, ?_⟩
    · rw [Registry.definitions_kept_iff added]
      constructor
      · intro found other otherHeaded
        rw [← headed.unique otherHeaded]
        exact ⟨_, found, fun _ => rfl⟩
      · intro taken
        obtain ⟨previous, found, same⟩ := taken name headed
        have allowed : s.registry.allowRedefinition = true := by simpa [found] using free
        rw [found, same allowed]
        rfl
    · intro first firstHeaded _ fixed nameSpan span nameMetadata metadata args scope u other same
        retried base
      obtain rfl := headed.unique firstHeaded
      have current : u.registry.current = s.registry.current := by rw [same, after]; rfl
      have unchanged : u.registry.allowRedefinition = false := by rw [same, after]; exact fixed
      have taken : (u.registry.definition? u.registry.current other.base).isSome = true := by
        rw [current, same, base, Registry.definition?_addDefinition added, if_pos ⟨rfl, rfl⟩]
        rfl
      obtain ⟨expand, depth, special⟩ :=
        analyzer.analyze_special .defStruct nameSpan span nameMetadata metadata args scope
      rw [special, ← current, ← base]
      exact analyzeDefStruct_of_taken retried taken unchanged

end Rejected

/-- The form `(defstruct* Box [1])`, with a field that is no symbol. -/
def Form.numberedBox : Form :=
  .list [.symbol SpecialForm.defStruct.name none [], .plainSymbol "Box",
    .vector [.int 1] none []] none []

set_option maxRecDepth 10000 in
theorem rejected_struct_keeps_definitions_iff_fields : ∃ t,
    ({} : Analyzer).analyze .numberedBox .top { registry := .ofSettings {} } =
      (.error { fault := .fieldNotSymbol }, t) ∧
    (∀ ns base, t.registry.definition? ns base =
      (Registry.ofSettings {}).definition? ns base) ∧ t.registry = .ofSettings {} := by
  obtain ⟨t, run⟩ : ∃ t, ({} : Analyzer).analyze .numberedBox .top
      { registry := .ofSettings {} } = (.error { fault := .fieldNotSymbol }, t) := ⟨_, rfl⟩
  obtain ⟨definitions, whole, _⟩ :=
    rejected_struct_keeps_definitions_iff rfl (by decide) run
  have wrong (name : Symbol) :
      ¬ Struct.Headed [.plainSymbol "Box", .vector [.int 1] none []] none name := by
    intro headed
    obtain ⟨_, fielded⟩ := headed.fielded
    contradiction
  refine ⟨t, run, definitions.mpr fun name headed => (wrong name headed).elim, whole ?_⟩
  rintro ⟨name, headed⟩
  exact wrong name headed

/-- The form `(defstruct* Box [] (area [this] 1))`, with a method of no interface. -/
def Form.strayBox : Form :=
  .list [.symbol SpecialForm.defStruct.name none [], .plainSymbol "Box", .vector [] none [],
    .list [.plainSymbol "area", .vector [.plainSymbol "this"] none [], .int 1] none []] none []

/-- The form `(defstruct* Box [])` -/
def Form.plainBox : Form :=
  .list [.symbol SpecialForm.defStruct.name none [], .plainSymbol "Box", .vector [] none []] none []

set_option maxRecDepth 10000 in
/-- A struct that could be defined before cannot be defined after its first version was rejected. -/
theorem rejected_struct_uses_up_name : ∃ t node u,
    (∀ arg ∈ Form.strayBox.items.drop 1, arg.writes = []) ∧
    ({} : Analyzer).analyze .plainBox .top { registry := .ofSettings {} } = (.ok node, u) ∧
    ({} : Analyzer).analyze .strayBox .top { registry := .ofSettings {} } =
      (.error { fault := .strayStructMethod }, t) ∧
    (Registry.ofSettings {}).definition? "user" "Box" = none ∧
    (t.registry.definition? "user" "Box").isSome = true ∧
    ({} : Analyzer).analyze .plainBox .top t = (.error {
      fault := .duplicateDefinition "user" "Box"
      cause := some (Fault.message (.duplicateDefinition "user" "Box")) }, t) := by
  exact ⟨_, _, _, by decide, rfl, rfl, rfl, rfl, rfl⟩

end LispFront
