import LispFront.Proofs.AppendOnly
import LispFront.Proofs.Rollback

/-! A namespace comes into being by a switch to it, and a switch checks the name first. Every other
write goes to a namespace that is there already, so a session never holds one that it did not start
with or check (`session_namespaces_accepted`). -/

namespace LispFront

namespace Text

theorem segmentChars_eq_splitOnP (isMark : Char → Bool) (chars : List Char) :
    segmentChars isMark chars = chars.splitOnP isMark := by
  induction chars with
  | nil => simp [segmentChars]
  | cons c rest ih =>
    rw [segmentChars, ih, List.splitOnP_cons_eq_if_modifyHead]
    cases split : rest.splitOnP isMark with
    | nil => exact absurd split (List.splitOnP_ne_nil isMark rest)
    | cons first others => rfl

def IsLetter (c : Char) : Prop := 'a' ≤ c ∧ c ≤ 'z' ∨ 'A' ≤ c ∧ c ≤ 'Z'

def IsDigit (c : Char) : Prop := '0' ≤ c ∧ c ≤ '9'

/-- The words `[a-zA-Z_][a-zA-Z0-9_-]*`. -/
def IsIdentifier (word : List Char) : Prop :=
  ∃ first rest, word = first :: rest ∧ (IsLetter first ∨ first = '_') ∧
    ∀ c ∈ rest, IsLetter c ∨ IsDigit c ∨ c = '_' ∨ c = '-'

theorem between_iff {c low high : Char} :
    (decide (c.val ≥ low.val) && decide (c.val ≤ high.val)) = true ↔ low ≤ c ∧ c ≤ high := by
  simp only [Bool.and_eq_true, decide_eq_true_eq, Char.le_def, ge_iff_le]

theorem isAlpha_iff {c : Char} : c.isAlpha = true ↔ IsLetter c := by
  change (c.isUpper || c.isLower) = true ↔ _
  rw [Bool.or_eq_true, or_comm]
  exact or_congr between_iff decide_eq_true_iff

theorem isAlphanum_iff {c : Char} : c.isAlphanum = true ↔ IsLetter c ∨ IsDigit c := by
  change (c.isAlpha || c.isDigit) = true ↔ _
  rw [Bool.or_eq_true]
  exact or_congr isAlpha_iff between_iff

theorem not_isLetter_dot : ¬ IsLetter '.' := by
  rw [← isAlpha_iff]
  decide

/-- No identifier has a dot in it. -/
theorem IsIdentifier.dot_not_mem {word : List Char} (identifier : IsIdentifier word) :
    '.' ∉ word := by
  obtain ⟨first, rest, rfl, start, more⟩ := identifier
  intro member
  rcases List.mem_cons.mp member with rfl | member
  · rcases start with letter | same
    · exact not_isLetter_dot letter
    · contradiction
  · rcases more '.' member with letter | digit | same | same
    · exact not_isLetter_dot letter
    · unfold IsDigit at digit
      revert digit
      decide
    · contradiction
    · contradiction

end Text

namespace Settings

variable {settings : Settings} {ns : String} {span : Option Span}

/-- The names that a namespace may have: identifiers divided by dots, none of which is a
reserved word in any letter case. -/
def Accepts (settings : Settings) (ns : String) : Prop :=
  ∃ words : List String, words ≠ [] ∧ ns.toList = ['.'].intercalate (words.map String.toList) ∧
    ∀ word ∈ words, Text.IsIdentifier word.toList ∧
      ∀ reserved ∈ platformWords ++ settings.reservedWords,
        Text.asciiLower reserved ≠ Text.asciiLower word

theorem isSegment_iff {segment : String} :
    isSegment segment = true ↔ Text.IsIdentifier segment.toList := by
  unfold isSegment Text.IsIdentifier
  split
  next empty => simp [empty]
  next first rest spelled =>
    simp only [spelled, List.cons.injEq, Bool.and_eq_true, Bool.or_eq_true, List.all_eq_true,
      beq_iff_eq, Text.isAlpha_iff, Text.isAlphanum_iff, or_assoc]
    constructor
    · intro ⟨start, more⟩
      exact ⟨first, rest, ⟨rfl, rfl⟩, start, more⟩
    · rintro ⟨_, _, ⟨rfl, rfl⟩, start, more⟩
      exact ⟨start, more⟩

theorem asciiLower_platformWords : ∀ word ∈ platformWords, Text.asciiLower word = word := by
  decide +kernel

theorem isReserved_iff {word : String} :
    settings.isReserved word = true ↔
      ∃ reserved ∈ platformWords ++ settings.reservedWords,
        Text.asciiLower reserved = Text.asciiLower word := by
  simp only [isReserved, isPlatformWord, Bool.or_eq_true, List.contains_iff_mem, List.any_eq_true,
    beq_iff_eq, List.mem_append]
  constructor
  · rintro (platform | ⟨extra, configured, same⟩)
    · exact ⟨_, .inl platform, asciiLower_platformWords _ platform⟩
    · exact ⟨extra, .inr configured, same⟩
  · rintro ⟨reserved, platform | configured, same⟩
    · rw [asciiLower_platformWords reserved platform] at same
      exact .inl (same ▸ platform)
    · exact .inr ⟨reserved, configured, same⟩

theorem checkSegments_eq_ok {words : List String} :
    settings.checkSegments span words = .ok () ↔
      ∀ word ∈ words, settings.isReserved word = false ∧ isSegment word = true := by
  induction words with
  | nil => simp [checkSegments]
  | cons word rest ih =>
    rw [checkSegments, List.forall_mem_cons, ← ih]
    cases settings.isReserved word <;> cases isSegment word <;> simp

/-- The segments are the only words that make up the name. -/
theorem segments_eq_iff {words : List String} (undotted : ∀ word ∈ words, '.' ∉ word.toList) :
    Text.segments (· == '.') ns = words ↔
      words ≠ [] ∧ ns.toList = ['.'].intercalate (words.map String.toList) := by
  have split : Text.segments (· == '.') ns = (ns.toList.splitOn '.').map String.ofList := by
    rw [Text.segments, Text.segmentChars_eq_splitOnP]
    rfl
  rw [split]
  constructor
  · rintro rfl
    refine ⟨by simp, ?_⟩
    have spelled : ((ns.toList.splitOn '.').map String.ofList).map String.toList =
        ns.toList.splitOn '.' := by simp
    rw [spelled, List.intercalate_splitOn]
  · rintro ⟨some, joined⟩
    have rejoined : ns.toList.splitOn '.' = words.map String.toList := by
      rw [joined]
      exact List.splitOn_intercalate '.' (by simpa using undotted) (by simpa using some)
    simp [rejoined]

/-- The check accepts the names it should, and no others. -/
theorem checkNamespace_eq_ok :
    settings.checkNamespace ns span = .ok () ↔ settings.Accepts ns := by
  have accepted {word : String} :
      settings.isReserved word = false ∧ isSegment word = true ↔
        Text.IsIdentifier word.toList ∧
          ∀ reserved ∈ platformWords ++ settings.reservedWords,
            Text.asciiLower reserved ≠ Text.asciiLower word := by
    rw [isSegment_iff, ← Bool.not_eq_true, isReserved_iff, and_comm]
    simp only [not_exists, not_and, ne_eq]
  unfold checkNamespace Accepts
  rw [checkSegments_eq_ok]
  constructor
  · intro valid
    have words := fun word member => accepted.mp (valid word member)
    have undotted := fun word member => (words word member).1.dot_not_mem
    obtain ⟨some, joined⟩ := (segments_eq_iff undotted).mp rfl
    exact ⟨_, some, joined, words⟩
  · rintro ⟨words, some, joined, valid⟩
    have undotted := fun word member => (valid word member).1.dot_not_mem
    rw [(segments_eq_iff undotted).mpr ⟨some, joined⟩]
    exact fun word member => accepted.mpr (valid word member)

end Settings

namespace Declaration

/-- A declaration is for a namespace that was checked. -/
theorem accepts_of_ofArgs {settings : Settings} {args : List Form} {span : Option Span}
    {ns : String} {declaration : Declaration}
    (read : ofArgs settings args span = .ok (ns, declaration)) : settings.Accepts ns := by
  unfold ofArgs at read
  split at read
  · contradiction
  · split at read
    · contradiction
    next symbol _ =>
      cases checked : settings.checkNamespace symbol.base symbol.span with
      | error error =>
        rw [checked] at read
        contradiction
      | ok =>
        rw [checked] at read
        cases declared : ofClauses settings _ with
        | error error =>
          rw [declared] at read
          contradiction
        | ok declared' =>
          rw [declared] at read
          obtain ⟨rfl, _⟩ := Prod.mk.inj (Except.ok.inj read)
          exact Settings.checkNamespace_eq_ok.mp checked

end Declaration

namespace Registry

variable {registry after : Registry} {allowed : String → Prop} {ns base : String}

/-- The current namespace is there, and so are only namespaces that are allowed. -/
structure Holds (allowed : String → Prop) (registry : Registry) : Prop where
  current : registry.has registry.current = true
  only : ∀ ns, registry.has ns = true → allowed ns

namespace Holds

theorem update (holds : registry.Holds allowed) (new : allowed ns)
    {change : Namespace → Namespace} : (registry.update ns change).Holds allowed where
  current := has_update.trans (Bool.or_eq_true_iff.mpr (.inr holds.current))
  only other present := by
    rcases Bool.or_eq_true_iff.mp (has_update.symm.trans present) with same | old
    · exact of_decide_eq_true same ▸ new
    · exact holds.only other old

theorem setCurrent (holds : registry.Holds allowed) (new : allowed ns) :
    (registry.setCurrent ns).Holds allowed where
  current := by
    have present : (registry.update ns id).has ns = true := by simp [has_update]
    exact present
  only := (holds.update new).only

theorem define (holds : registry.Holds allowed) {metadata : Entries}
    {previous : Option Definition}
    (added : registry.addDefinition registry.current base metadata = .ok (previous, after)) :
    after.Holds allowed := by
  obtain ⟨_, _, rfl⟩ := addDefinition_eq_ok.mp added
  exact holds.update (holds.only _ holds.current)

theorem register (holds : registry.Holds allowed) (new : allowed ns)
    (declaration : Declaration) : (declaration.register ns registry).Holds allowed := by
  rw [declaration.register_eq]
  exact (holds.setCurrent new).update new

theorem ofSettings (settings : Settings) (home : allowed settings.defaultNamespace)
    (core : allowed settings.coreNamespace) : (ofSettings settings).Holds allowed := by
  have started : (start settings.defaultNamespace).Holds allowed := by
    refine ⟨(Made.start settings.defaultNamespace).has_current, fun ns present => ?_⟩
    have same : ns = settings.defaultNamespace := by
      rw [has, start, Table.contains, Table.find?_insert] at present
      split at present
      · assumption
      · contradiction
    exact same ▸ home
  have both : ((start settings.defaultNamespace).update settings.coreNamespace id).Holds allowed :=
    started.update core
  exact ⟨both.current, both.only⟩

end Holds

end Registry

/-- If all names that pass the check are allowed, an analysis brings in no others. -/
theorem tracks_holds {analyzer : Analyzer} (unhosted : analyzer.host = .none)
    {allowed : String → Prop} (accepts : ∀ ns, analyzer.settings.Accepts ns → allowed ns) :
    Tracks analyzer fun _ s t => s.registry.Holds allowed → t.registry.Holds allowed where
  toSteady := .between_registries
    (fun first second => first.Holds allowed → second.Holds allowed) unhosted (fun _ => id)
    fun earlier later holds => later (earlier holds)
  change {_ s _ _} _ change holds := by
    cases change with
    | define added => exact holds.define added
    | @interface base _ _ registry methods added =>
      have noted : (registry.addInterface s.registry.current base methods).Holds allowed :=
        (holds.define added).update (holds.only _ holds.current)
      exact noted
    | declare read => exact holds.register (accepts _ (Declaration.accepts_of_ofArgs read)) _
    | switch valid => exact holds.setCurrent (accepts _ (Settings.checkNamespace_eq_ok.mp valid))
  undo {_ s t base _ previous _} _ added kept holds := by
    -- The namespace of the definition was current before it, wherever its value went.
    have home := holds.only _ holds.current
    have restored : (t.registry.restoreDefinition s.registry.current base previous).Holds allowed :=
      (kept (holds.define added)).update home
    exact restored

/-- The form `(in-ns "ns")`. -/
def Form.switchTo (ns : String) : Form :=
  .list [.symbol SpecialForm.inNs.name none [], .str ns] none []

/-- An accepted name is switched to, in whatever state. -/
theorem Analyzer.gives_switchTo {analyzer : Analyzer} {ns : String}
    (accepted : analyzer.settings.Accepts ns) (s : State) :
    Gives (analyzer.analyzeTopLevel (.switchTo ns)) s (.mk .top none (.inNs ns))
      { s with registry := s.registry.setCurrent ns } := by
  obtain ⟨expand, depth, analyzed⟩ :=
    analyzer.analyze_special .inNs none none [] [] [.str ns] .top
  have checked : analyzer.settings.checkNamespace ns none = .ok () :=
    Settings.checkNamespace_eq_ok.mpr accepted
  unfold analyzeTopLevel Form.switchTo
  rw [analyzed]
  change Gives (analyzeInNs analyzer.settings [.str ns] none .top) s _ _
  simp only [analyzeInNs, gives_bind, gives_ofExcept, gives_changeRegistry, gives_pure]
  exact ⟨ns, s, ⟨rfl, rfl⟩, (), s, ⟨checked, rfl⟩, (), _, rfl, rfl, rfl⟩

/-- In a session with no host, whether its forms succeed or fail, the current namespace is there,
and every namespace is the core one, the one at the start, or one with an accepted name. All
accepted names can come to be current. -/
theorem session_namespaces_accepted {analyzer : Analyzer} (unhosted : analyzer.host = .none)
    (calls : List (Form × NameSupply)) :
    let registry := analyzer.session calls (.ofSettings analyzer.settings)
    registry.has registry.current = true ∧
    (∀ ns, registry.has ns = true → ns = analyzer.settings.coreNamespace ∨
      ns = analyzer.settings.defaultNamespace ∨ analyzer.settings.Accepts ns) ∧
    (∀ ns names, analyzer.settings.Accepts ns →
      (analyzer.session [(.switchTo ns, names)] registry).current = ns) := by
  have holds := calls.foldlRecOn
    (motive := Registry.Holds fun ns => ns = analyzer.settings.coreNamespace ∨
      ns = analyzer.settings.defaultNamespace ∨ analyzer.settings.Accepts ns)
    (fun registry call =>
      (analyzer.analyzeTopLevel call.1 { registry, names := call.2 }).2.registry)
    (.ofSettings analyzer.settings (.inr (.inl rfl)) (.inl rfl)) fun registry holds call _ =>
      (tracks_holds unhosted fun _ accepted => .inr (.inr accepted)).follows_analyze call.1 .top
        { registry, names := call.2 } holds
  refine ⟨holds.current, holds.only, fun ns names accepted => ?_⟩
  have switched := Analyzer.gives_switchTo accepted
    { registry := analyzer.session calls (.ofSettings analyzer.settings), names }
  exact congrArg (fun outcome => outcome.2.registry.current) switched

/-- An analyzer with a reserved word of its own. -/
def Analyzer.reservingVendor : Analyzer := { settings := { reservedWords := ["Vendor"] } }

/-- A switch that is made, one to a reserved word that is refused, and a definition that fails
after a switch. -/
def Form.switches : List (Form × NameSupply) :=
  [(.switchTo "shop.Cart-2", {}), (.switchTo "shop.VENDOR", {}), (.failingDefinition, {})]

set_option maxRecDepth 10000 in
theorem session_namespaces_accepted_vendor :
    let analyzer := Analyzer.reservingVendor
    let registry := analyzer.session Form.switches (.ofSettings analyzer.settings)
    registry.current = "other" ∧ registry.has "other" = true ∧
    registry.has "shop.VENDOR" = false ∧
    analyzer.settings.Accepts "shop.Cart-2" ∧
    (analyzer.session [(.switchTo "shop.Cart-2", {})] registry).current = "shop.Cart-2" := by
  obtain ⟨present, only, reached⟩ :=
    @session_namespaces_accepted Analyzer.reservingVendor rfl Form.switches
  have current : (Analyzer.reservingVendor.session Form.switches
      (.ofSettings Analyzer.reservingVendor.settings)).current = "other" := rfl
  rw [current] at present
  have accepted : Analyzer.reservingVendor.settings.Accepts "shop.Cart-2" := by
    rcases only "shop.Cart-2" rfl with same | same | accepted
    · contradiction
    · contradiction
    · exact accepted
  exact ⟨current, present, rfl, accepted, reached _ _ accepted⟩

end LispFront
