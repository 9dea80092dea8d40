import LispFront.Proofs.Endings
import LispFront.Proofs.Faults
import LispFront.Proofs.Lowering

/-! Symbols, lists, vectors and maps have a span; scalars and keywords have none. Of a form under
analysis, `Marks` are the spans of the composite forms inside of it, and `Blames` says what its
errors point at: one of these spans, or a scalar that is reported on its own and therefore without a
place. -/

namespace LispFront

def Entries.forms (entries : Entries) : List Form :=
  entries.flatMap fun entry => [entry.1, entry.2]

theorem Entries.mem_forms {entries : Entries} {form : Form} :
    form ∈ entries.forms ↔ ∃ entry ∈ entries, form = entry.1 ∨ form = entry.2 := by
  simp [Entries.forms]

theorem Entries.forall_mem_forms {entries : Entries} {good : Form → Prop} :
    (∀ form ∈ entries.forms, good form) ↔ entries.All good := by
  constructor
  · intro all entry member
    exact ⟨all _ (mem_forms.mpr ⟨entry, member, .inl rfl⟩),
      all _ (mem_forms.mpr ⟨entry, member, .inr rfl⟩)⟩
  · intro all form member
    obtain ⟨entry, listed, rfl | rfl⟩ := mem_forms.mp member
    · exact (all entry listed).1
    · exact (all entry listed).2

namespace Form

/-- The forms directly inside, metadata included. -/
def parts : Form → List Form
  | .symbol _ _ metadata => Entries.forms metadata
  | .list items _ metadata | .vector items _ metadata => items ++ Entries.forms metadata
  | .map entries _ metadata => Entries.forms entries ++ Entries.forms metadata
  | _ => []

/-- The form is the other one or stands somewhere in it. -/
inductive Inside : Form → Form → Prop where
  | self (form : Form) : Inside form form
  | part {inner middle outer : Form} (member : middle ∈ outer.parts)
      (inside : Inside inner middle) : Inside inner outer

/-- Scalars and keywords, which carry neither a span nor metadata. -/
def isScalar (form : Form) : Bool := form.metadata?.isNone

theorem span_of_isScalar {form : Form} (scalar : form.isScalar = true) : form.span = none := by
  cases form with
  | symbol | list | vector | map => contradiction
  | _ => rfl

/-- Every symbol, list, vector and map in the form, metadata included, has a span. -/
def Located (form : Form) : Prop :=
  ∀ inner : Form, inner.Inside form → inner.isScalar = false → inner.span.isSome = true

/-- The span of some form inside, or none. -/
def Allows (root : Form) (span : Option Span) : Prop :=
  span = none ∨ ∃ inner : Form, inner.Inside root ∧ inner.span = span

/-- The span of some composite form inside. -/
def Marks (root : Form) (span : Option Span) : Prop :=
  ∃ inner : Form, inner.Inside root ∧ inner.isScalar = false ∧ inner.span = span

variable {root : Form} {span : Option Span}

theorem Inside.trans {inner middle : Form} (first : inner.Inside middle)
    (second : middle.Inside root) : inner.Inside root := by
  induction second with
  | self => exact first
  | part member _ ih => exact .part member (ih)

section Parts

variable {items : List Form} {entries metadata : Entries} {item : Form}

theorem Inside.item_of_list (outer : (Form.list items span metadata).Inside root)
    (member : item ∈ items) : item.Inside root :=
  Inside.trans (.part (List.mem_append_left _ member) (.self item)) outer

theorem Inside.item_of_vector (outer : (Form.vector items span metadata).Inside root)
    (member : item ∈ items) : item.Inside root :=
  Inside.trans (.part (List.mem_append_left _ member) (.self item)) outer

theorem Inside.entry_of_map (outer : (Form.map entries span metadata).Inside root) :
    Entries.All (Inside · root) entries := by
  intro entry member
  have part (form : Form) (own : form = entry.1 ∨ form = entry.2) : form.Inside root := by
    have listed := Entries.mem_forms.mpr ⟨entry, member, own⟩
    exact Inside.trans (.part (List.mem_append_left _ listed) (.self form)) outer
  exact ⟨part _ (.inl rfl), part _ (.inr rfl)⟩

theorem Inside.entry_of_metadata {symbol : Symbol} (outer : symbol.form.Inside root) :
    Entries.All (Inside · root) symbol.metadata := by
  intro entry member
  have part (form : Form) (own : form = entry.1 ∨ form = entry.2) : form.Inside root :=
    Inside.trans (.part (Entries.mem_forms.mpr ⟨entry, member, own⟩) (.self form)) outer
  exact ⟨part _ (.inl rfl), part _ (.inr rfl)⟩

end Parts

theorem Inside.marks {form : Form} (inside : form.Inside root)
    (composite : form.isScalar = false) : root.Marks form.span := ⟨form, inside, composite, rfl⟩

theorem Inside.marks_symbol {symbol : Symbol} (inside : symbol.form.Inside root) :
    root.Marks symbol.span := inside.marks rfl

theorem Inside.allows {form : Form} (inside : form.Inside root) : root.Allows form.span :=
  .inr ⟨form, inside, rfl⟩

theorem Marks.allows (marks : root.Marks span) : root.Allows span := by
  obtain ⟨inner, inside, _, same⟩ := marks
  exact .inr ⟨inner, inside, same⟩

/-- A place to fall back on is as good as the first one. -/
theorem Marks.or (fallback : root.Marks span) {first : Option Span} (allows : root.Allows first) :
    root.Marks (first.or span) := by
  cases first with
  | none => exact fallback
  | some place =>
    rcases allows with missing | ⟨inner, inside, same⟩
    · contradiction
    · refine ⟨inner, inside, ?_, same⟩
      cases scalar : inner.isScalar with
      | false => rfl
      | true =>
        rw [span_of_isScalar scalar] at same
        contradiction

end Form

/-- Whether the fault is reported at a form that may be this scalar, and at nothing else if it
is. All other faults are reported at a composite form, or at one around it. -/
def Fault.rejects : Fault → Form → Bool
  | .notDestructurable kind, scalar | .strayStructForm kind, scalar => kind == scalar.kindName
  | .malformedMetadata, .str _ | .malformedMetadata, .keyword _ => false
  | .requireFileNotString, .str _ | .inNamespaceName, .str _ => false
  | .bindingsNotVector, _ | .crowdedRest, _ | .parametersNotVector, _ | .headerNotVector, _
  | .strayTryForm, _ | .malformedMetadata, _ | .interfaceMethodNotList, _
  | .interfaceParameterNotSymbol, _ | .fieldNotSymbol, _ | .namespaceNotSymbol, _
  | .malformedClause, _ | .useNotSymbol, _ | .referNotSymbol, _ | .requireFileNotString, _
  | .inNamespaceName, _ | .memberKind _, _ => true
  | _, _ => false

/-- What an error in the analysis of the form may point at. -/
inductive Form.Blames (root : Form) (error : AnalysisError) : Prop where
  | place (marks : root.Marks error.span)
  | scalar {scalar : Form} (inside : scalar.Inside root) (isScalar : scalar.isScalar = true)
      (rejects : error.fault.rejects scalar = true) (same : error = .atForm error.fault scalar)
  /-- The bound on nested steps was reached. -/
  | limit (bound : ¬ error.Genuine)

namespace Form

variable {root : Form} {fault : Fault}

theorem Marks.blames {span : Option Span} {cause : Option String} (marks : root.Marks span) :
    root.Blames { fault, span, cause } := .place marks

/-- What is reported at a form inside is reported at a place, unless the form is a scalar. -/
theorem Inside.blames {form : Form} (inside : form.Inside root)
    (rejects : form.isScalar = true → fault.rejects form = true) :
    root.Blames (.atForm fault form) := by
  cases scalar : form.isScalar with
  | false => exact .place (inside.marks scalar)
  | true => exact .scalar inside scalar (rejects scalar) rfl

end Form

end LispFront
