import LispFront.Proofs.CoreAccessors
import LispFront.Proofs.SpanRules
import LispFront.Proofs.Termination

/-! With no host, the spans in a tree and the span of an error are spans of the form that was
analyzed (`spans_from_source`). In a form with spans throughout, an error without a span is one that
is reported at a scalar, and nothing else (`unlocated_iff_blames_scalar`). -/

namespace LispFront

variable {analyzer : Analyzer} {form : Form} {s t : State}

theorem placed_of_analyze (unhosted : analyzer.host = .none) {node : Node}
    (run : Gives (analyzer.analyzeTopLevel form) s node t) : node.Placed form form.span := by
  obtain ⟨expand, analyzed⟩ := analyzer.analyze_eq_descend
  have ends := analyzer.traces_descend unhosted expand (Analyzer.stepsFor form) form .top
    (.inside (.self form))
  rw [← analyzed] at ends
  exact ends.gives run

theorem blames_of_analyze (unhosted : analyzer.host = .none) {error : AnalysisError}
    (run : Fails (analyzer.analyzeTopLevel form) s error t) :
    form.Blames error ∧ error.Genuine := by
  obtain ⟨expand, analyzed⟩ := analyzer.analyze_eq_descend
  have ends := analyzer.traces_descend unhosted expand (Analyzer.stepsFor form) form .top
    (.inside (.self form))
  rw [← analyzed] at ends
  have step := agrees_eq.mp (@Analyzer.alike_analyze_step analyzer unhosted expand form .top)
  exact ⟨ends.fails run, step.2 s error t run⟩

/-- No span is invented. The tree has the span of the form, and each span in it is that of some
form inside, or missing; so is the span of an error. -/
theorem spans_from_source (unhosted : analyzer.host = .none) (form : Form) (s : State) :
    (∀ node t, Gives (analyzer.analyzeTopLevel form) s node t → node.span = form.span ∧
      ∀ trail found, node.Leads trail found → ∀ span ∈ found.marks,
        span = none ∨ ∃ inner : Form, inner.Inside form ∧ inner.span = span) ∧
    ∀ error t, Fails (analyzer.analyzeTopLevel form) s error t →
      error.span = none ∨ ∃ inner : Form, inner.Inside form ∧ inner.span = error.span := by
  constructor
  · intro node t run
    have placed := placed_of_analyze unhosted run
    exact ⟨placed.span, placed.traced⟩
  · intro error t failed
    obtain ⟨blames, genuine⟩ := blames_of_analyze unhosted failed
    cases blames with
    | place marks => exact marks.allows
    | scalar _ isScalar _ same =>
      rw [same]
      exact .inl (Form.span_of_isScalar isScalar)
    | limit bound => contradiction

/-- The form `(let [[a] 1] a)` on one line. -/
def Form.locatedLet : Form :=
  .list [.symbol (.plain "let") (some ⟨1, 2, 1, 5, none⟩) [],
    .vector [.vector [.symbol (.plain "a") (some ⟨1, 8, 1, 9, none⟩) []]
      (some ⟨1, 7, 1, 10, none⟩) [], .int 1] (some ⟨1, 6, 1, 13, none⟩) [],
    .symbol (.plain "a") (some ⟨1, 14, 1, 15, none⟩) []] (some ⟨1, 1, 1, 16, none⟩) []

set_option maxRecDepth 10000 in
/-- The call that takes the element out of the value is located at the pattern. -/
theorem spans_from_source_accessor : ∃ node t trail found, ∃ inner : Form,
    Gives (({} : Analyzer).analyzeTopLevel .locatedLet) { registry := .withAccessors } node t ∧
    node.Leads trail found ∧ found.kindName = "call" ∧
    found.span = some ⟨1, 7, 1, 10, none⟩ ∧
    inner.Inside .locatedLet ∧ inner.span = found.span := by
  obtain ⟨node, t, trail, found, run, leads, call, place⟩ : ∃ node t trail found,
      Gives (({} : Analyzer).analyzeTopLevel .locatedLet) { registry := .withAccessors } node t ∧
      node.Leads trail found ∧ found.kindName = "call" ∧
      found.span = some ⟨1, 7, 1, 10, none⟩ :=
    ⟨_, _, _, _, rfl, .into (.tail _ (.head _)) (.here _), rfl, rfl⟩
  obtain ⟨_, spans⟩ := (spans_from_source rfl .locatedLet _).1 node t run
  rcases spans trail found leads found.span List.mem_cons_self with missing | ⟨inner, inside, same⟩
  · rw [place] at missing
    contradiction
  · exact ⟨node, t, trail, found, inner, run, leads, call, place, inside, same⟩

/-- In a form with spans throughout, an error has no span just when it is reported at a scalar,
with one of the faults that are reported at whatever stands in the wrong place. -/
theorem unlocated_iff_blames_scalar (unhosted : analyzer.host = .none) (located : form.Located)
    {error : AnalysisError} (failed : Fails (analyzer.analyzeTopLevel form) s error t) :
    error.span = none ↔ ∃ scalar : Form, scalar.Inside form ∧ scalar.isScalar = true ∧
      error.fault.rejects scalar = true ∧ error = .atForm error.fault scalar := by
  constructor
  · intro missing
    obtain ⟨blames, genuine⟩ := blames_of_analyze unhosted failed
    cases blames with
    | place marks =>
      obtain ⟨inner, inside, composite, same⟩ := marks
      have present := located inner inside composite
      rw [same, missing] at present
      contradiction
    | scalar inside isScalar rejects same => exact ⟨_, inside, isScalar, rejects, same⟩
    | limit bound => contradiction
  · rintro ⟨scalar, _, isScalar, _, same⟩
    rw [same]
    exact Form.span_of_isScalar isScalar

namespace Form

theorem located_iff {form : Form} :
    form.Located ↔ (form.isScalar = false → form.span.isSome = true) ∧
      ∀ part ∈ form.parts, part.Located := by
  constructor
  · intro located
    exact ⟨located form (.self form), fun part member inner inside =>
      located inner (.part member inside)⟩
  · rintro ⟨own, parts⟩ inner inside
    cases inside with
    | self => exact own
    | part member inside => exact parts _ member inner inside

variable {items : List Form} {span : Option Span}

theorem located_int {value : Int} : (Form.int value).Located := by
  rw [located_iff]
  simp [isScalar, metadata?, parts]

theorem located_symbol {name : Name} :
    (Form.symbol name span []).Located ↔ span.isSome = true := by
  rw [located_iff]
  simp [isScalar, metadata?, parts, Entries.forms, Form.span]

theorem located_list :
    (Form.list items span []).Located ↔ span.isSome = true ∧ ∀ item ∈ items, item.Located := by
  rw [located_iff]
  simp [isScalar, metadata?, parts, Entries.forms, Form.span]

theorem located_vector :
    (Form.vector items span []).Located ↔ span.isSome = true ∧ ∀ item ∈ items, item.Located := by
  rw [located_iff]
  simp [isScalar, metadata?, parts, Entries.forms, Form.span]

theorem locatedLet_located : locatedLet.Located := by
  simp [locatedLet, located_list, located_vector, located_symbol, located_int]

/-- The form `(let 5 6)` on one line. -/
def letOverNumber : Form :=
  .list [.symbol (.plain "let") (some ⟨1, 2, 1, 5, none⟩) [], .int 5, .int 6]
    (some ⟨1, 1, 1, 10, none⟩) []

theorem letOverNumber_located : letOverNumber.Located := by
  simp [letOverNumber, located_list, located_symbol, located_int]

end Form

set_option maxRecDepth 10000 in
/-- Without its definition, the accessor is reported missing at the pattern. -/
theorem unlocated_iff_blames_scalar_accessor : ∃ error t,
    Form.locatedLet.Located ∧
    Fails (({} : Analyzer).analyzeTopLevel .locatedLet) { registry := .ofSettings {} } error t ∧
    error.fault = .unresolvedSymbol (.qualified "core" "get") ∧ error.span ≠ none := by
  obtain ⟨error, t, failed, fault⟩ : ∃ error t,
      Fails (({} : Analyzer).analyzeTopLevel .locatedLet) { registry := .ofSettings {} } error t ∧
      error.fault = .unresolvedSymbol (.qualified "core" "get") := ⟨_, _, rfl, rfl⟩
  refine ⟨error, t, Form.locatedLet_located, failed, fault, fun missing => ?_⟩
  obtain ⟨scalar, _, _, rejects, _⟩ :=
    (unlocated_iff_blames_scalar rfl Form.locatedLet_located failed).mp missing
  rw [fault] at rejects
  contradiction

/-- Bindings that are a number are refused without a place, though the form around them has
one. -/
theorem scalar_bindings_unlocated : ∃ t,
    Form.letOverNumber.Located ∧
    Fails (({} : Analyzer).analyzeTopLevel .letOverNumber) { registry := .ofSettings {} }
      { fault := .bindingsNotVector, span := none } t :=
  ⟨_, Form.letOverNumber_located, rfl⟩

end LispFront
