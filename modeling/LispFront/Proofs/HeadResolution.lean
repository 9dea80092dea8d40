import LispFront.Analysis.Analyzer
import LispFront.Proofs.Outcome
import LispFront.Proofs.Registry

/-! Whether a call is expanded is decided by a look-up of its head that agrees with the analysis of
a symbol but in one case (`Resolve.expandable?_iff_shape`): a symbol with a namespace and a base
that starts with a backslash denotes a definition when it is analyzed, and a host class as the head
of a call. -/

namespace LispFront

variable {core home : String} {registry : Registry} {scope : Scope} {symbol : Symbol}
variable {metadata : Entries} {definition : Definition}

/-- Has a namespace and is spelled like a host class behind it. -/
def Symbol.isQualifiedClass (symbol : Symbol) : Bool :=
  symbol.isQualified && Resolve.isClassName symbol.base

namespace Resolve

theorem host?_eq_none_iff {ν : Type} :
    (host? symbol : Option (Shape ν)) = none ↔
      symbol.ns ≠ some hostNamespace ∧
      (isClassName symbol.base = false ∨ symbol.isQualifiedClass = true) := by
  unfold host? Symbol.isQualifiedClass Symbol.isQualified Symbol.ns Name.isQualified
  cases symbol.name.ns with
  | none => cases isClassName symbol.base <;> simp
  | some ns => cases isClassName symbol.base <;> simp

/-- A symbol denotes a definition when no meaning that comes first applies. -/
theorem shape_eq_globalVar_iff {ν : Type} :
    shape core registry scope symbol = .ok (.globalVar home symbol metadata : Shape ν) ↔
      (host? symbol : Option (Shape ν)) = none ∧ isLocal scope symbol = false ∧
      classAlias? registry symbol = none ∧
      ∃ definition, global? core registry symbol = .ok (some definition) ∧
        definition.ns = home ∧ definition.metadata = metadata := by
  unfold shape
  cases platform : (host? symbol : Option (Shape ν)) with
  | some named =>
    unfold host? at platform
    split at platform <;> split at platform <;> cases platform <;> simp
  | none =>
    cases isLocal scope symbol with
    | true => simp
    | false =>
      cases classAlias? registry symbol with
      | some cls => simp
      | none =>
        rcases global? core registry symbol with error | _ | definition <;> simp

theorem expandable?_eq_some_iff :
    expandable? core registry scope symbol = .ok (some definition) ↔
      symbol.ns ≠ some hostNamespace ∧ isClassName symbol.base = false ∧
      isLocal scope symbol = false ∧ classAlias? registry symbol = none ∧
      global? core registry symbol = .ok (some definition) := by
  unfold expandable?
  split
  next early =>
    simp only [Bool.or_eq_true, decide_eq_true_eq, Option.isSome_iff_ne_none] at early
    constructor
    · intro impossible
      cases impossible
    · rintro ⟨notHost, notClass, notLocal, notAlias, _⟩
      rcases early with ((host | cls) | isLocal) | isAlias
      · exact absurd host notHost
      · rw [notClass] at cls
        contradiction
      · rw [notLocal] at isLocal
        contradiction
      · exact absurd notAlias isAlias
  next late =>
    simp only [Bool.or_eq_true, decide_eq_true_eq, not_or, Bool.not_eq_true,
      Option.isSome_eq_false_iff, Option.isNone_iff_eq_none] at late
    obtain ⟨⟨⟨notHost, notClass⟩, notLocal⟩, notAlias⟩ := late
    exact ⟨fun found => ⟨notHost, notClass, notLocal, notAlias, found⟩, fun all => all.2.2.2.2⟩

/-- The two look-ups differ on qualified names with the spelling of a class alone. -/
theorem expandable?_iff_shape {ν : Type} :
    (∃ definition, expandable? core registry scope symbol = .ok (some definition) ∧
      definition.ns = home ∧ definition.metadata = metadata) ↔
    shape core registry scope symbol = .ok (.globalVar home symbol metadata : Shape ν) ∧
      symbol.isQualifiedClass = false := by
  simp only [expandable?_eq_some_iff, shape_eq_globalVar_iff, host?_eq_none_iff]
  constructor
  · rintro ⟨definition, ⟨notHost, notClass, notLocal, notAlias, found⟩, ns, entries⟩
    have apart : symbol.isQualifiedClass = false := by simp [Symbol.isQualifiedClass, notClass]
    exact ⟨⟨⟨notHost, .inl notClass⟩, notLocal, notAlias, definition, found, ns, entries⟩, apart⟩
  · rintro ⟨⟨⟨notHost, notClass⟩, notLocal, notAlias, definition, found, ns, entries⟩, apart⟩
    have notClass : isClassName symbol.base = false :=
      notClass.resolve_right (Bool.eq_false_iff.mp apart)
    exact ⟨definition, ⟨notHost, notClass, notLocal, notAlias, found⟩, ns, entries⟩

theorem lookup?_of_global? (found : global? core registry symbol = .ok (some definition)) :
    registry.lookup? core symbol.name = some definition := by
  unfold global? at found
  split at found
  next looked =>
    split at found
    · contradiction
    · rw [looked]
      exact Except.ok.inj found
  next => cases found

theorem visible_of_global? (found : global? core registry symbol = .ok (some definition))
    (hidden : definition.isPrivate = true) : definition.ns = registry.current := by
  have looked := lookup?_of_global? found
  unfold global? at found
  simp only [looked, hidden, Bool.true_and] at found
  by_cases own : definition.ns = registry.current
  · exact own
  · simp [own] at found

theorem expandable?_of_isQualifiedClass (spelled : symbol.isQualifiedClass = true) :
    expandable? core registry scope symbol = .ok none := by
  have cls : isClassName symbol.base = true := (Bool.and_eq_true_iff.mp spelled).2
  simp [expandable?, cls]

end Resolve

/-- Wherever a name is looked for, it is looked for under its base. -/
theorem Registry.definition?_of_lookup? {name : Name}
    (found : registry.lookup? core name = some definition) :
    ∃ ns, registry.definition? ns name.base = some definition := by
  unfold lookup? at found
  split at found
  · exact ⟨_, found⟩
  · unfold plainDefinition? at found
    simp only [Option.or_eq_some_iff, Option.bind_eq_some_iff] at found
    rcases found with own | ⟨_, ⟨source, _, referred⟩ | ⟨_, shared⟩⟩
    · exact ⟨_, own⟩
    · exact ⟨source, referred⟩
    · exact ⟨core, shared⟩

/-- What a symbol denotes is found under its own name. -/
theorem Registry.Made.definition?_of_global? (made : registry.Made)
    (found : Resolve.global? core registry symbol = .ok (some definition)) :
    registry.definition? definition.ns definition.base = some definition ∧
      definition.base = symbol.base := by
  obtain ⟨ns, filed⟩ := Registry.definition?_of_lookup? (Resolve.lookup?_of_global? found)
  obtain ⟨rfl, base⟩ := made.filed filed
  rw [base]
  exact ⟨filed, rfl⟩

theorem gives_analyzeSymbol {settings : Settings} {s t : State} {node : Node} :
    Gives (analyzeSymbol settings symbol scope) s node t ↔
      ∃ shape, Resolve.shape settings.coreNamespace s.registry scope symbol = .ok shape ∧
        .mk scope symbol.span shape = node ∧ s = t := by
  simp only [analyzeSymbol, gives_bind, gives_registry, gives_ofExcept, gives_pure]
  constructor
  · rintro ⟨_, _, ⟨rfl, rfl⟩, shape, _, ⟨resolved, rfl⟩, same, rfl⟩
    exact ⟨shape, resolved, same, rfl⟩
  · rintro ⟨shape, resolved, same, rfl⟩
    exact ⟨_, _, ⟨rfl, rfl⟩, shape, _, ⟨resolved, rfl⟩, same, rfl⟩

/-- As a value, the symbol is the variable of a definition with these metadata. -/
def Denotes (settings : Settings) (scope : Scope) (s : State) (symbol : Symbol) (home : String)
    (metadata : Entries) : Prop :=
  Gives (analyzeSymbol settings symbol scope) s
    (.mk scope symbol.span (.globalVar home symbol metadata)) s

theorem denotes_iff {settings : Settings} {s : State} :
    Denotes settings scope s symbol home metadata ↔
      Resolve.shape settings.coreNamespace s.registry scope symbol =
        .ok (.globalVar home symbol metadata : Shape Node) := by
  simp [Denotes, gives_analyzeSymbol]

namespace Call

variable {settings : Settings} {host : Host} {visit expand : Visit} {args : List Form}
variable {span : Option Span} {s : State}

/-- The call of the head with the arguments, as it is analyzed without expansion. -/
def plain (visit : Visit) (head : Form) (args : List Form) (span : Option Span)
    (scope : Scope) : AnalyzeM Node := do
  let callee ← visit head scope.argument
  let args ← visitAll visit scope.argument args
  pure (.mk scope span (.call callee args))

/-- What the macro of a definition makes of the call. -/
def expandMacro (host : Host) (expand : Visit) (definition : Definition) (args : List Form)
    (span : Option Span) (scope : Scope) : AnalyzeM Node := do
  let callable : Callable := { kind := .macroBody, ns := definition.ns, base := definition.base }
  let form ← callHost host (expand · .top) callable args span
  expand (form.locateAt span) scope

theorem expanded?_of_expandable? {reenter : Form → AnalyzeM Node} {found : Option Definition}
    (resolved : Resolve.expandable? settings.coreNamespace s.registry scope symbol = .ok found) :
    expanded? settings host reenter symbol.form args span scope s =
      (match found with
        | none => pure none
        | some definition => expansion? host reenter definition args span : AnalyzeM _) s :=
  (bind_of_ok (gives_registry.mpr ⟨rfl, rfl⟩)).trans
    (bind_of_ok (gives_ofExcept.mpr ⟨resolved, rfl⟩))

theorem analyzeCall_of_none
    (resolved : Resolve.expandable? settings.coreNamespace s.registry scope symbol = .ok none) :
    analyzeCall settings host visit expand symbol.form args span scope s =
      plain visit symbol.form args span scope s :=
  bind_of_ok (expanded?_of_expandable? resolved)

theorem analyzeCall_of_function (isMacro : definition.isMacro = false)
    (isInline : definition.isInline = false)
    (resolved : Resolve.expandable? settings.coreNamespace s.registry scope symbol =
      .ok (some definition)) :
    analyzeCall settings host visit expand symbol.form args span scope s =
      plain visit symbol.form args span scope s := by
  have kind : Gives (expansionKind? host (expand · .top) definition args span) s none s := by
    simp [expansionKind?, isMacro, isInline, gives_pure]
  have expansion : Gives (expansion? host (expand · .top) definition args span) s none s :=
    bind_of_ok kind
  exact bind_of_ok ((expanded?_of_expandable? resolved).trans expansion)

theorem analyzeCall_of_macro (isMacro : definition.isMacro = true)
    (resolved : Resolve.expandable? settings.coreNamespace s.registry scope symbol =
      .ok (some definition)) :
    analyzeCall settings host visit expand symbol.form args span scope s =
      expandMacro host expand definition args span scope s := by
  have decided : expanded? settings host (expand · .top) symbol.form args span scope s =
      expansion? host (expand · .top) definition args span s := expanded?_of_expandable? resolved
  have kind : Gives (expansionKind? host (expand · .top) definition args span) s
      (some .macroBody) s := by
    simp [expansionKind?, isMacro, gives_pure]
  rcases made : callHost host (expand · .top)
      { kind := .macroBody, ns := definition.ns, base := definition.base } args span s with
    ⟨error | form, t⟩
  · have expansion : expansion? host (expand · .top) definition args span s = (.error error, t) :=
      (bind_of_ok kind).trans (bind_of_error made)
    have direct : expandMacro host expand definition args span scope s = (.error error, t) :=
      bind_of_error made
    exact (bind_of_error (decided.trans expansion)).trans direct.symm
  · have expansion : Gives (expansion? host (expand · .top) definition args span) s
        (some (form.locateAt span)) t := (bind_of_ok kind).trans (bind_of_ok made)
    have direct : expandMacro host expand definition args span scope s =
        expand (form.locateAt span) scope t := bind_of_ok made
    exact (bind_of_ok (decided.trans expansion)).trans direct.symm

end Call

section Form

variable {analyzer : Analyzer} {visit expand : Visit} {args : List Form} {span : Option Span}
variable {listMetadata : Entries}

theorem analyzeForm_of_not_special (ordinary : SpecialForm.ofName? symbol.name = none) :
    analyzer.analyzeForm visit expand (.list (symbol.form :: args) span listMetadata) scope =
      analyzeCall analyzer.settings analyzer.host visit expand symbol.form args span scope := by
  have notSpecial : Analyzer.special? symbol.form = none := ordinary
  simp only [Analyzer.analyzeForm, notSpecial]

end Form

/-- For every state of the registry, scope and symbol: a definition may expand the call of the
symbol just when the symbol as a value is the variable of that definition, except that a
qualified name with the spelling of a class is never expanded. So a list whose head denotes a
macro is what the host makes of it, and with a head of that spelling a call like any other. -/
theorem macro_head_resolution (analyzer : Analyzer) (visit expand : Visit) (scope : Scope)
    (s : State) (symbol : Symbol) (definition : Definition) :
    ((∃ found, Resolve.expandable? analyzer.settings.coreNamespace s.registry scope symbol =
        .ok (some found) ∧ found.ns = definition.ns ∧ found.metadata = definition.metadata) ↔
      Denotes analyzer.settings scope s symbol definition.ns definition.metadata ∧
        symbol.isQualifiedClass = false) ∧
    (∀ args span listMetadata,
      Denotes analyzer.settings scope s symbol definition.ns definition.metadata →
      definition.isMacro = true → SpecialForm.ofName? symbol.name = none →
      (symbol.isQualifiedClass = false →
        ∃ found, s.registry.lookup? analyzer.settings.coreNamespace symbol.name = some found ∧
          found.ns = definition.ns ∧ found.metadata = definition.metadata ∧
          analyzer.analyzeForm visit expand (.list (symbol.form :: args) span listMetadata)
            scope s = Call.expandMacro analyzer.host expand found args span scope s) ∧
      (symbol.isQualifiedClass = true →
        analyzer.analyzeForm visit expand (.list (symbol.form :: args) span listMetadata)
          scope s = Call.plain visit symbol.form args span scope s)) := by
  have agree : (∃ found, Resolve.expandable? analyzer.settings.coreNamespace s.registry scope
      symbol = .ok (some found) ∧ found.ns = definition.ns ∧
        found.metadata = definition.metadata) ↔
      Denotes analyzer.settings scope s symbol definition.ns definition.metadata ∧
        symbol.isQualifiedClass = false := by
    rw [denotes_iff]
    exact Resolve.expandable?_iff_shape
  refine ⟨agree, fun args span listMetadata denotes isMacro ordinary => ⟨fun apart => ?_, ?_⟩⟩
  · obtain ⟨found, expandable, ns, metadata⟩ := agree.mpr ⟨denotes, apart⟩
    have looked := Resolve.lookup?_of_global?
      (Resolve.expandable?_eq_some_iff.mp expandable).2.2.2.2
    have flagged : found.isMacro = true := by
      simpa only [Definition.isMacro, Definition.flag, Definition.metadata?, metadata] using isMacro
    refine ⟨found, looked, ns, metadata, ?_⟩
    rw [analyzeForm_of_not_special ordinary]
    exact Call.analyzeCall_of_macro flagged expandable
  · intro spelled
    rw [analyzeForm_of_not_special ordinary]
    exact Call.analyzeCall_of_none (Resolve.expandable?_of_isQualifiedClass spelled)

/-- A registry as it starts, with a macro of this name. -/
def Registry.withMacro (ns base : String) : Registry :=
  (Registry.ofSettings {}).withDefinition ns base (Entries.flagged "macro")

/-- The macro `user/when` is the head of `(when 1)`, written without its namespace. -/
theorem macro_head_resolution_plain :
    ∃ found, (Registry.withMacro "user" "when").lookup? "core" (.plain "when") = some found ∧
      found.ns = "user" ∧ found.metadata = Entries.flagged "macro" ∧
      ({} : Analyzer).analyzeForm ({} : Analyzer).analyze ({} : Analyzer).analyze
          (.list [.plainSymbol "when", .int 1] none []) .top
          { registry := .withMacro "user" "when" } =
        Call.expandMacro .none ({} : Analyzer).analyze found [.int 1] none .top
          { registry := .withMacro "user" "when" } :=
  ((macro_head_resolution {} ({} : Analyzer).analyze ({} : Analyzer).analyze .top
    { registry := .withMacro "user" "when" } (.plain "when")
    { ns := "user", base := "when", metadata := Entries.flagged "macro" }).2
    [.int 1] none [] rfl rfl rfl).1 rfl

/-- The symbol `foo/\bar` denotes a macro, and `(foo/\bar 1)` is analyzed as a call of it,
whatever the host could have made of it. -/
theorem qualified_class_macro_called :
    Denotes {} .top { registry := .withMacro "foo" "\\bar" } { name := .qualified "foo" "\\bar" }
      "foo" (Entries.flagged "macro") ∧
    Resolve.expandable? "core" (.withMacro "foo" "\\bar") .top
      { name := .qualified "foo" "\\bar" } = .ok none ∧
    ∀ host : Host, Gives (({ host } : Analyzer).analyzeTopLevel
        (.list [.symbol (.qualified "foo" "\\bar") none [], .int 1] none []))
      { registry := .withMacro "foo" "\\bar" }
      (.mk .top none (.call
        (.mk Scope.top.argument none
          (.globalVar "foo" { name := .qualified "foo" "\\bar" } (Entries.flagged "macro")))
        [.mk Scope.top.argument none (.literal (.int 1))]))
      { registry := .withMacro "foo" "\\bar" } :=
  ⟨rfl, rfl, fun _ => rfl⟩

end LispFront
