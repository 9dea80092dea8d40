import LispFront.Proofs.FormOrder
import LispFront.Proofs.RejectedStructs

/-! The metadata of a definition has the keys of the form behind its name, of the name itself, and
of its place. Where two of these maps share a key, the one with more entries decides. So what the
form says is registered only as long as the other two do not outnumber it
(`explicit_metadata_wins_iff`). -/

namespace LispFront

theorem Form.cmp_plainKeyword_eq_iff {form : Form} {base : String} :
    form.cmp (.plainKeyword base) = .eq ↔ form = .plainKeyword base := by
  cases form <;> simp [Form.plainKeyword, Form.cmp, Form.rank, Name.cmp_eq_iff]

namespace Entries

variable {entries left right part written named : Entries} {key : Form} {span : Option Span}

def Has (entries : Entries) (key : Form) : Prop := ∃ value, entries.find? key = some value

/-- Every key has the same value there. -/
def KeptIn (entries all : Entries) : Prop :=
  ∀ key value, entries.find? key = some value → all.find? key = some value

/-- No key has different values. -/
def Agree (left right : Entries) : Prop :=
  ∀ key first second, left.find? key = some first → right.find? key = some second → first = second

theorem find?_cons {entry : Form × Form} : find? key (entry :: entries) =
    if key.cmp entry.1 = .eq then some entry.2 else entries.find? key := rfl

theorem not_has_nil : ¬ Has [] key := by
  rintro ⟨_, found⟩
  contradiction

theorem has_cons {entry : Form × Form} :
    Has (entry :: entries) key ↔ key.cmp entry.1 = .eq ∨ entries.Has key := by
  unfold Has
  rw [find?_cons]
  by_cases atKey : key.cmp entry.1 = .eq <;> simp [atKey]

theorem find?_union_of_le (fewer : right.length ≤ left.length) :
    (left.union right).find? key = (left.find? key).or (right.find? key) :=
  (Ordered.find?_union key left right).trans (if_pos fewer)

theorem find?_union_of_lt (more : left.length < right.length) :
    (left.union right).find? key = (right.find? key).or (left.find? key) :=
  (Ordered.find?_union key left right).trans (if_neg (Nat.not_le_of_lt more))

theorem has_union : (left.union right).Has key ↔ left.Has key ∨ right.Has key := by
  unfold Has
  rcases Nat.lt_or_ge left.length right.length with more | fewer
  · rw [find?_union_of_lt more]
    cases left.find? key <;> cases right.find? key <;> simp
  · rw [find?_union_of_le fewer]
    cases left.find? key <;> cases right.find? key <;> simp

theorem keptIn_union_iff_of_le (fewer : right.length ≤ left.length)
    (keys : ∀ key, part.Has key → left.Has key) :
    part.KeptIn (left.union right) ↔ part.KeptIn left := by
  have same (key value : Form) (found : part.find? key = some value) :
      (left.union right).find? key = left.find? key := by
    obtain ⟨own, atLeft⟩ := keys key ⟨value, found⟩
    rw [find?_union_of_le fewer, atLeft, Option.some_or]
  constructor
  · intro kept key value found
    rw [← same key value found, kept key value found]
  · intro kept key value found
    rw [same key value found, kept key value found]

theorem keptIn_union_iff_of_lt (more : left.length < right.length) (kept : part.KeptIn left) :
    part.KeptIn (left.union right) ↔ part.Agree right := by
  constructor
  · intro both key first second found atRight
    have chosen := both key first found
    rw [find?_union_of_lt more, atRight] at chosen
    exact (Option.some.inj chosen).symm
  · intro agree key value found
    rw [find?_union_of_lt more]
    cases atRight : right.find? key with
    | none => exact kept key value found
    | some other => rw [agree key value other found atRight, Option.some_or]

theorem keptIn_union_iff :
    left.KeptIn (left.union right) ↔ right.length ≤ left.length ∨ left.Agree right := by
  have self : left.KeptIn left := fun _ _ => id
  rcases Nat.lt_or_ge left.length right.length with more | fewer
  · rw [keptIn_union_iff_of_lt more self, or_iff_right (Nat.not_le_of_lt more)]
  · exact iff_of_true ((keptIn_union_iff_of_le fewer fun _ => id).mpr self) (.inl fewer)

/-- One entry can lose against another one only if it is on the right. -/
theorem keptIn_union_of_few (few : (left.union right).length < 2) :
    left.KeptIn (left.union right) := by
  have rightFew : right.length ≤ (left.union right).length :=
    (Ordered.length_le_union left right).2
  rw [keptIn_union_iff]
  cases left with
  | nil => exact .inr fun _ _ _ found => (not_has_nil ⟨_, found⟩).elim
  | cons entry rest =>
    left
    rw [List.length_cons]
    omega

theorem ofSpan_eq (span : Span) :
    ofSpan span =
      [(.plainKeyword "end-location", ofPosition span.endLine span.endColumn span.file),
        (.plainKeyword "start-location",
          ofPosition span.startLine span.startColumn span.file)] := rfl

theorem has_ofSpan {span : Span} : (ofSpan span).Has key ↔
    key = .plainKeyword "start-location" ∨ key = .plainKeyword "end-location" := by
  simp only [ofSpan_eq, has_cons, not_has_nil, Form.cmp_plainKeyword_eq_iff, or_false]
  exact or_comm

/-- The keys under which the place of a definition stands, if it is known. -/
def LocationKey (span : Option Span) (key : Form) : Prop :=
  span.isSome = true ∧ (key = .plainKeyword "start-location" ∨ key = .plainKeyword "end-location")

theorem has_located :
    (entries.located span).Has key ↔ entries.Has key ∨ LocationKey span key := by
  cases span with
  | none => simp [located, LocationKey]
  | some span => simp [located, LocationKey, has_union, has_ofSpan]

/-- The place takes part in the union with two entries. If form and name have but one key together,
the form is kept against the name, and the place decides against both. -/
theorem keptIn_located_iff :
    written.KeptIn ((written.union named).located span) ↔
      (named.length ≤ written.length ∨ written.Agree named) ∧
      ∀ place, span = some place →
        2 ≤ (written.union named).length ∨ written.Agree (ofSpan place) := by
  cases span with
  | none => simp [located, keptIn_union_iff]
  | some place =>
    have two : (ofSpan place).length = 2 := congrArg List.length (ofSpan_eq place)
    have keys (key : Form) (has : written.Has key) : (written.union named).Has key :=
      has_union.mpr (.inl has)
    simp only [located, Option.some.injEq, forall_eq']
    rcases Nat.lt_or_ge (written.union named).length 2 with few | enough
    · have kept : written.KeptIn (written.union named) := keptIn_union_of_few few
      rw [keptIn_union_iff_of_lt (two ▸ few) kept, or_iff_right (Nat.not_le_of_lt few),
        ← keptIn_union_iff, and_iff_right kept]
    · rw [keptIn_union_iff_of_le (two ▸ enough) keys, keptIn_union_iff,
        and_iff_left (.inl enough)]

end Entries

/-- The state with a definition in the current namespace. -/
def State.withDefinition (base : String) (metadata : Entries) (state : State) : State :=
  { state with registry := state.registry.withDefinition state.registry.current base metadata }

theorem State.definition?_withDefinition (state : State) (base : String) (metadata : Entries) :
    (state.withDefinition base metadata).registry.definition? state.registry.current base =
      some { ns := state.registry.current, base, metadata } := by
  rw [State.withDefinition, Registry.definition?_withDefinition, if_pos ⟨rfl, rfl⟩]

namespace Definition

/-- A definition with a form for its metadata. -/
def list (name : Symbol) (metadataForm init : Form) (headSpan span : Option Span)
    (headMetadata metadata : Entries) : Form :=
  .list (.symbol SpecialForm.define.name headSpan headMetadata ::
    [name.form, metadataForm, init]) span metadata

/-- The name may be defined here: not inside of another definition, with no namespace of its own,
and only if it is free or may be defined again. -/
structure Admits (scope : Scope) (registry : Registry) (name : Symbol) : Prop where
  outside : scope.defAllowed = true
  plain : name.Plain
  free : registry.definition? registry.current name.base = none ∨
    registry.allowRedefinition = true

/-- What is left to do for a definition once it is registered. -/
def complete (visit : Visit) (name : Symbol) (registered : Entries) (init : Form)
    (span : Option Span) (scope : Scope) (ns : String) (previous : Option Definition) :
    AnalyzeM Node := do
  let initScope := (scope.argument.allowDef false).labelled (platformName ns name.base)
  let (metadataNode, init) ←
    AnalyzeM.onFailure (Registry.restoreDefinition ns name.base previous)
      (visitBoth visit (.map registered span []) init initScope)
  pure (.mk scope span (.define ns name registered metadataNode init))

variable {visit : Visit} {name : Symbol} {form init : Form} {span : Option Span} {scope : Scope}
variable {written : Entries} {s t : State} {node : Node}

theorem parts_of_metadata :
    parts [name.form, form, init] span = .ok (some form, init) := rfl

theorem definedName_of_plain {rest : List Form} (plain : name.Plain) :
    definedName .define (name.form :: rest) span = .ok name := by
  rw [definedName, List.head?_cons, Option.bind_some,
    Form.plainSymbol?_iff.mpr ⟨rfl, plain⟩]

theorem definedName_of_not_plain {rest : List Form} (qualified : ¬ name.Plain) :
    ∃ error, definedName .define (name.form :: rest) span = .error error := by
  match read : definedName .define (name.form :: rest) span with
  | .error error => exact ⟨error, rfl⟩
  | .ok other =>
    obtain ⟨same, plain⟩ := Form.plainSymbol?_iff.mp (definedName_eq_ok read)
    exact (qualified (Symbol.form_inj same ▸ plain)).elim

theorem collectMetadata_of_valid (valid : Entries.ofMetadataForm form = .ok written) :
    collectMetadata name (some form) span = .ok ((written.union name.metadata).located span) := by
  rw [collectMetadata, valid]
  rfl

theorem analyzeDefine_eq (valid : Entries.ofMetadataForm form = .ok written)
    (outside : scope.defAllowed = true) (plain : name.Plain) :
    analyzeDefine visit [name.form, form, init] span scope s =
      (AnalyzeM.define name ((written.union name.metadata).located span) >>=
        complete visit name ((written.union name.metadata).located span) init span scope
          s.registry.current) s := by
  unfold analyzeDefine
  rw [if_pos outside, bind_of_ok (gives_ofExcept.mpr ⟨parts_of_metadata, rfl⟩)]
  dsimp only
  rw [bind_of_ok (gives_ofExcept.mpr ⟨definedName_of_plain plain, rfl⟩),
    bind_of_ok (gives_ofExcept.mpr ⟨collectMetadata_of_valid valid, rfl⟩),
    bind_of_ok (gives_registry.mpr ⟨rfl, rfl⟩)]
  rfl

/-- An admitted definition is registered before anything else is analyzed. -/
theorem analyzeDefine_of_admits (valid : Entries.ofMetadataForm form = .ok written)
    (admits : Admits scope s.registry name) :
    analyzeDefine visit [name.form, form, init] span scope s =
      complete visit name ((written.union name.metadata).located span) init span scope
        s.registry.current (s.registry.definition? s.registry.current name.base)
        (s.withDefinition name.base ((written.union name.metadata).located span)) := by
  rw [analyzeDefine_eq valid admits.outside admits.plain]
  have added {metadata : Entries} :
      s.registry.addDefinition s.registry.current name.base metadata = .ok (_, _) :=
    Registry.addDefinition_eq_ok.mpr ⟨admits.free, rfl, rfl⟩
  exact bind_of_ok (gives_define.mpr ⟨_, added, rfl⟩)

/-- Any other one is refused before that. -/
theorem analyzeDefine_of_not_admits (valid : Entries.ofMetadataForm form = .ok written)
    (refused : ¬ Admits scope s.registry name) :
    ∃ error, analyzeDefine visit [name.form, form, init] span scope s = (.error error, s) := by
  by_cases outside : scope.defAllowed = true
  · by_cases plain : name.Plain
    · obtain ⟨taken, fixed⟩ := not_or.mp fun free => refused ⟨outside, plain, free⟩
      have duplicate {metadata : Entries} :
          s.registry.addDefinition s.registry.current name.base metadata = .error _ :=
        Registry.addDefinition_eq_error.mpr
          ⟨Option.isSome_iff_ne_none.mpr taken, Bool.eq_false_iff.mpr fixed, rfl⟩
      rw [analyzeDefine_eq valid outside plain]
      exact ⟨_, bind_of_error (fails_define.mpr ⟨_, duplicate, rfl, rfl⟩)⟩
    · obtain ⟨error, unnamed⟩ := definedName_of_not_plain plain
      unfold analyzeDefine
      rw [if_pos outside, bind_of_ok (gives_ofExcept.mpr ⟨parts_of_metadata, rfl⟩)]
      exact ⟨error, bind_of_error (fails_ofExcept.mpr ⟨unnamed, rfl⟩)⟩
  · unfold analyzeDefine
    rw [if_neg outside]
    exact ⟨_, rfl⟩

/-- Values that write nothing leave the registry with the definition in it. -/
theorem registry_of_gives_complete {analyzer : Analyzer} (unhosted : analyzer.host = .none)
    (visits : Follows RegistryKept visit) {registered : Entries} {ns : String}
    {previous : Option Definition}
    (run : Gives (complete visit name registered init span scope ns previous) s node t) :
    t.registry = s.registry := by
  simp only [complete, gives_bind, gives_onFailure, gives_pure] at run
  obtain ⟨_, _, visited, _, rfl⟩ := run
  have tracked {first second : Form} {scope : Scope} (blocked : scope.frame = none) :
      Tracked (RegistryKept none) (visitBoth visit first second scope) :=
    (steady_registryKept unhosted).of_visitBoth visits blocked
  exact (tracked rfl).of_run visited

end Definition

/-- A definition with a valid form for its metadata is refused at once, or registered before its
value is analyzed. What is registered has the keys of the form, of the name, and of the place if
that is known. The form has its way with all of its keys exactly if neither the name, when it has
more entries than the form, nor the place, when form and name have but one key together, says
something else. With no host and nothing inside that writes to the registry, a definition that is
accepted changes nothing else there. -/
theorem explicit_metadata_wins_iff {analyzer : Analyzer} {name : Symbol} {form init : Form}
    {headSpan span : Option Span} {headMetadata metadata written : Entries} {scope : Scope}
    {s : State} (valid : Entries.ofMetadataForm form = .ok written) :
    (¬ Definition.Admits scope s.registry name → ∃ error,
      analyzer.analyze (Definition.list name form init headSpan span headMetadata metadata) scope
        s = (.error error, s)) ∧
    (Definition.Admits scope s.registry name → ∃ expand depth registered,
      analyzer.analyze (Definition.list name form init headSpan span headMetadata metadata) scope
        s = Definition.complete (analyzer.descend expand depth) name registered init span scope
          s.registry.current (s.registry.definition? s.registry.current name.base)
          (s.withDefinition name.base registered) ∧
      (s.withDefinition name.base registered).registry.definition? s.registry.current name.base =
        some { ns := s.registry.current, base := name.base, metadata := registered } ∧
      (∀ key, registered.Has key ↔
        written.Has key ∨ name.metadata.Has key ∨ Entries.LocationKey span key) ∧
      (written.KeptIn registered ↔
        (name.metadata.length ≤ written.length ∨ written.Agree name.metadata) ∧
        ∀ place, span = some place →
          2 ≤ (written.union name.metadata).length ∨ written.Agree (Entries.ofSpan place)) ∧
      (analyzer.host = .none → (∀ arg ∈ [name.form, form, init], arg.writes = []) →
        ∀ node t, analyzer.analyze
            (Definition.list name form init headSpan span headMetadata metadata) scope s =
              (.ok node, t) →
          t.registry = (s.withDefinition name.base registered).registry)) := by
  obtain ⟨expand, depth, special⟩ := analyzer.analyze_special .define headSpan span headMetadata
    metadata [name.form, form, init] scope
  change analyzer.analyze (Definition.list ..) scope = _ at special
  rw [special]
  refine ⟨Definition.analyzeDefine_of_not_admits valid, fun admits => ⟨expand, depth, _,
    Definition.analyzeDefine_of_admits valid admits, s.definition?_withDefinition _ _,
    fun key => ?_, Entries.keptIn_located_iff, ?_⟩⟩
  · rw [Entries.has_located, Entries.has_union, or_assoc]
  · intro unhosted quiet node t run
    rw [Analyzer.analyzeSpecial_quiet unhosted quiet] at run
    have completed := (Definition.analyzeDefine_of_admits valid admits).symm.trans run
    exact Definition.registry_of_gives_complete unhosted
      (follows_confine_registryKept unhosted expand depth) completed

/-- The name `f` with `:private false` and more metadata. -/
def Symbol.publicF (more : Entries) : Symbol :=
  { name := .plain "f", metadata := (.plainKeyword "private", .bool false) :: more }

/-- `{:doc "text" :private true}` -/
def Entries.documentedPrivate : Entries :=
  [(.plainKeyword "doc", .str "text"), (.plainKeyword "private", .bool true)]

/-- `(def ^{:private false} f {:doc "text" :private true} 1)`, written in one line. -/
theorem explicit_metadata_wins_iff_documented : ∃ node t registered,
    ({} : Analyzer).analyze
      (Definition.list (.publicF []) (.map Entries.documentedPrivate none []) (.int 1) none
        (some ⟨1, 0, 1, 60, none⟩) [] []) .top { registry := .ofSettings {} } = (.ok node, t) ∧
    t.registry.definition? "user" "f" = some { ns := "user", base := "f", metadata := registered } ∧
    Entries.documentedPrivate.KeptIn registered := by
  obtain ⟨node, t, run⟩ : ∃ node t, Gives (({} : Analyzer).analyze
      (Definition.list (.publicF []) (.map Entries.documentedPrivate none []) (.int 1) none
        (some ⟨1, 0, 1, 60, none⟩) [] []) .top) { registry := .ofSettings {} } node t :=
    exists_gives_of_isOk (by decide +kernel)
  have valid : Entries.ofMetadataForm (.map Entries.documentedPrivate none []) =
    .ok Entries.documentedPrivate := rfl
  obtain ⟨_, admitted⟩ := @explicit_metadata_wins_iff {} (.publicF []) _ (.int 1) none
    (some ⟨1, 0, 1, 60, none⟩) [] [] _ .top { registry := .ofSettings {} } valid
  obtain ⟨_, _, registered, _, found, _, wins, kept⟩ :=
    admitted ⟨rfl, rfl, .inl (by decide +kernel)⟩
  refine ⟨node, t, registered, run, ?_, ?_⟩
  · rw [kept rfl (by decide +kernel) node t run]
    exact found
  · exact wins.mpr ⟨.inl (by decide), fun _ _ => .inl (by decide +kernel)⟩

/-- `(def ^{:private false :since 1} f :private 1)`: the name has more entries than the form, so the
definition is not private. -/
theorem explicit_metadata_outnumbered : ∃ node t registered,
    ({} : Analyzer).analyze
      (Definition.list (.publicF [(.plainKeyword "since", .int 1)]) (.plainKeyword "private")
        (.int 1) none none [] []) .top { registry := .ofSettings {} } = (.ok node, t) ∧
    Entries.ofMetadataForm (.plainKeyword "private") = .ok (Entries.flagged "private") ∧
    t.registry.definition? "user" "f" = some { ns := "user", base := "f", metadata := registered } ∧
    registered.keyword? "private" = some (.bool false) ∧
    ¬ (Entries.flagged "private").KeptIn registered := by
  refine ⟨_, _, _, rfl, rfl, rfl, rfl, fun kept => ?_⟩
  have flag : some (Form.bool false) = some (.bool true) :=
    kept (.plainKeyword "private") (.bool true) rfl
  injections

end LispFront
