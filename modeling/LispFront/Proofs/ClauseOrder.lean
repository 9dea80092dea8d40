import Mathlib.Data.Set.List
import LispFront.Proofs.Rollback

/-! A `try` holds forms that are no clauses, then `catch` clauses, then at most one `finally` clause
(`InOrder`). The scan divides these lists, and no others, into parts that make up the list again
(`Parts.Splits`). Any other list is refused for the first form up to which it is no longer in order
(`try_clauses_in_order`). -/

namespace LispFront.Guarded

/-- A list headed by this plain symbol. -/
def Headed (base : String) (form : Form) : Prop :=
  ∃ headSpan headMetadata items span metadata,
    form = .list (.symbol (.plain base) headSpan headMetadata :: items) span metadata

def Unclaused (form : Form) : Prop := ¬ Headed "catch" form ∧ ¬ Headed "finally" form

/-- A body, then handlers, then at most one cleanup. -/
def InOrder (forms : List Form) : Prop :=
  ∃ body handlers cleanup, forms = body ++ handlers ++ cleanup ∧
    (∀ form ∈ body, Unclaused form) ∧ (∀ form ∈ handlers, Headed "catch" form) ∧
    (∀ form ∈ cleanup, Headed "finally" form) ∧ cleanup.length ≤ 1

/-- The parts are of the right kinds and make up the list in this order. -/
structure Parts.Splits (parts : Parts) (forms : List Form) : Prop where
  body : ∀ form ∈ parts.body, Unclaused form
  handlers : ∀ clause ∈ parts.handlers, Headed "catch" clause.form
  cleanup : ∀ clause ∈ parts.cleanup, Headed "finally" clause.form
  whole : parts.body ++ parts.handlers.map Clause.form ++ parts.cleanup.toList.map Clause.form =
    forms

variable {base : String} {form : Form} {forms rest : List Form} {clause : Clause}
variable {handlers : List Clause} {cleanup : Option Clause} {parts : Parts} {error : AnalysisError}

theorem headed_of_clause? (found : clause? base form = some clause) : Headed base form := by
  unfold clause? at found
  split at found
  next head items span metadata =>
    split at found
    next named =>
      cases head with
      | symbol name headSpan headMetadata =>
        obtain rfl : name = .plain base := by simpa [Form.isNamed] using named
        exact ⟨headSpan, headMetadata, items, span, metadata, rfl⟩
      | _ => contradiction
    · contradiction
  · contradiction

/-- A clause is recognized, and no part of it gets lost. -/
theorem clause?_form (headed : Headed base clause.form) :
    clause? base clause.form = some clause := by
  obtain ⟨head, items, span, metadata⟩ := clause
  obtain ⟨headSpan, headMetadata, _, _, _, same⟩ := headed
  simp only [Clause.form, Form.list.injEq, List.cons.injEq] at same
  obtain ⟨⟨rfl, rfl⟩, rfl, rfl⟩ := same
  simp [clause?, Clause.form, Form.isNamed]

theorem exists_clause_form (headed : Headed base form) : ∃ clause : Clause, clause.form = form := by
  obtain ⟨headSpan, headMetadata, items, span, metadata, rfl⟩ := headed
  exact ⟨⟨_, items, span, metadata⟩, rfl⟩

theorem exists_map_form (headed : ∀ form ∈ forms, Headed base form) :
    ∃ clauses : List Clause, clauses.map Clause.form = forms := by
  have range : forms ∈ Set.range (List.map Clause.form) := by
    rw [Set.range_list_map]
    exact fun form member => exists_clause_form (headed form member)
  exact range

theorem clause?_eq_none (other : ¬ Headed base form) : clause? base form = none := by
  rcases found : clause? base form with _ | clause
  · rfl
  · exact (other (headed_of_clause? found)).elim

/-- No list has both heads. -/
theorem Headed.not_catch (final : Headed "finally" form) : ¬ Headed "catch" form := by
  obtain ⟨_, _, _, _, _, rfl⟩ := final
  rintro ⟨_, _, _, _, _, same⟩
  simp [Name.plain] at same

theorem isClause_eq_true : isClause form = true ↔ Headed "catch" form ∨ Headed "finally" form := by
  unfold isClause
  rw [Bool.or_eq_true]
  refine or_congr ?_ ?_ <;>
  · constructor
    · intro found
      obtain ⟨clause, found⟩ := Option.isSome_iff_exists.mp found
      exact headed_of_clause? found
    · intro headed
      obtain ⟨clause, rfl⟩ := exists_clause_form headed
      rw [clause?_form headed]
      rfl

theorem isClause_eq_false : isClause form = false ↔ Unclaused form := by
  rw [← Bool.not_eq_true, isClause_eq_true, not_or, Unclaused]

theorem clauses_cons_catch (headed : Headed "catch" clause.form) :
    clauses (clause.form :: rest) =
      (clauses rest).map fun read => (clause :: read.1, read.2) := by
  simp only [clauses, clause?_form headed]
  rcases clauses rest with _ | ⟨handlers, cleanup⟩
  · rfl
  · rfl

theorem clauses_finally (headed : Headed "finally" clause.form) :
    clauses [clause.form] = .ok ([], some clause) := by
  simp only [clauses, clause?_eq_none headed.not_catch, clause?_form headed]

theorem clauses_cons_finally (headed : Headed "finally" form) (stray : Form) :
    clauses (form :: stray :: rest) = .error (.atForm .strayTryForm stray) := by
  obtain ⟨clause, rfl⟩ := exists_clause_form headed
  simp only [clauses, clause?_eq_none headed.not_catch, clause?_form headed]

theorem clauses_cons_unclaused (other : Unclaused form) :
    clauses (form :: rest) = .error (.atForm .strayTryForm form) := by
  simp only [clauses, clause?_eq_none other.1, clause?_eq_none other.2]

theorem splits_of_clauses (read : clauses forms = .ok (handlers, cleanup)) :
    Parts.Splits ⟨[], handlers, cleanup⟩ forms := by
  induction forms generalizing handlers cleanup with
  | nil =>
    obtain ⟨rfl, rfl⟩ := Prod.mk.inj (Except.ok.inj read)
    exact ⟨by simp, by simp, by simp, rfl⟩
  | cons form rest ih =>
    by_cases handled : Headed "catch" form
    · obtain ⟨clause, rfl⟩ := exists_clause_form handled
      rw [clauses_cons_catch handled] at read
      obtain ⟨⟨later, last⟩, more, same⟩ := map_eq_ok.mp read
      obtain ⟨rfl, rfl⟩ := Prod.mk.inj same
      obtain ⟨body, headed, final, whole⟩ := ih more
      exact ⟨body, List.forall_mem_cons.mpr ⟨handled, headed⟩, final,
        congrArg (clause.form :: ·) whole⟩
    · by_cases final : Headed "finally" form
      · obtain ⟨clause, rfl⟩ := exists_clause_form final
        cases rest with
        | nil =>
          rw [clauses_finally final] at read
          obtain ⟨rfl, rfl⟩ := Prod.mk.inj (Except.ok.inj read)
          exact ⟨by simp, by simp, by simpa using final, rfl⟩
        | cons stray after =>
          rw [clauses_cons_finally final] at read
          contradiction
      · rw [clauses_cons_unclaused ⟨handled, final⟩] at read
        contradiction

theorem clauses_map_form (headed : ∀ clause ∈ handlers, Headed "catch" clause.form)
    (final : ∀ clause ∈ cleanup, Headed "finally" clause.form) :
    clauses (handlers.map Clause.form ++ cleanup.toList.map Clause.form) =
      .ok (handlers, cleanup) := by
  induction handlers with
  | nil =>
    cases cleanup with
    | none => rfl
    | some clause => exact clauses_finally (final clause rfl)
  | cons clause rest ih =>
    obtain ⟨first, others⟩ := List.forall_mem_cons.mp headed
    rw [List.map_cons, List.cons_append, clauses_cons_catch first, ih others]
    rfl

/-- The clauses up to a stray form decide that it is reported. -/
theorem clauses_eq_error (refused : clauses forms = .error error) :
    ∃ before stray after, forms = before ++ stray :: after ∧
      error = .atForm .strayTryForm stray ∧ (∃ read, clauses before = .ok read) ∧
      ∀ rest, clauses (before ++ stray :: rest) = .error error := by
  induction forms with
  | nil => contradiction
  | cons form rest ih =>
    by_cases handled : Headed "catch" form
    · obtain ⟨clause, rfl⟩ := exists_clause_form handled
      rw [clauses_cons_catch handled] at refused
      obtain ⟨before, stray, after, rfl, same, ⟨read, front⟩, always⟩ :=
        ih (map_eq_error.mp refused)
      refine ⟨clause.form :: before, stray, after, rfl, same, ⟨(clause :: read.1, read.2), ?_⟩,
        fun rest => ?_⟩
      · rw [clauses_cons_catch handled, front]
        rfl
      · rw [List.cons_append, clauses_cons_catch handled, always rest]
        rfl
    · by_cases final : Headed "finally" form
      · cases rest with
        | nil =>
          obtain ⟨clause, rfl⟩ := exists_clause_form final
          rw [clauses_finally final] at refused
          contradiction
        | cons stray after =>
          rw [clauses_cons_finally final] at refused
          obtain rfl := Except.error.inj refused
          obtain ⟨clause, rfl⟩ := exists_clause_form final
          exact ⟨[clause.form], stray, after, rfl, rfl, ⟨_, clauses_finally final⟩,
            fun rest => clauses_cons_finally final stray⟩
      · rw [clauses_cons_unclaused ⟨handled, final⟩] at refused
        obtain rfl := Except.error.inj refused
        exact ⟨[], form, rest, rfl, rfl, ⟨_, rfl⟩,
          fun rest => clauses_cons_unclaused ⟨handled, final⟩⟩

theorem parts_cons_unclaused (other : Unclaused form) :
    Guarded.parts (form :: rest) =
      (Guarded.parts rest).map fun parts => { parts with body := form :: parts.body } := by
  have plain : isClause form = false := isClause_eq_false.mpr other
  simp only [Guarded.parts, List.takeWhile_cons, List.dropWhile_cons, plain, Bool.not_false,
    if_true]
  rcases clauses (rest.dropWhile fun form => !isClause form) with _ | _
  · rfl
  · rfl

/-- From a clause on there are only clauses to read. -/
theorem parts_of_clause (first : ∀ form ∈ forms.head?, ¬ Unclaused form) :
    Guarded.parts forms = (clauses forms).map fun read => ⟨[], read.1, read.2⟩ := by
  cases forms with
  | nil => rfl
  | cons form rest =>
    have claused : isClause form = true := by
      rw [← Bool.not_eq_false, isClause_eq_false]
      exact first form rfl
    simp only [Guarded.parts, List.takeWhile_cons, List.dropWhile_cons, claused, Bool.not_true,
      Bool.false_eq_true, if_false]
    rcases clauses (form :: rest) with _ | _
    · rfl
    · rfl

theorem splits_of_parts (read : Guarded.parts forms = .ok parts) : parts.Splits forms := by
  induction forms generalizing parts with
  | nil =>
    obtain rfl := Except.ok.inj read
    exact ⟨by simp, by simp, by simp, rfl⟩
  | cons form rest ih =>
    by_cases plain : Unclaused form
    · rw [parts_cons_unclaused plain] at read
      obtain ⟨later, more, rfl⟩ := map_eq_ok.mp read
      obtain ⟨body, handlers, cleanup, whole⟩ := ih more
      exact ⟨List.forall_mem_cons.mpr ⟨plain, body⟩, handlers, cleanup,
        congrArg (form :: ·) whole⟩
    · rw [parts_of_clause (by simpa using plain)] at read
      obtain ⟨_, more, rfl⟩ := map_eq_ok.mp read
      exact splits_of_clauses more

theorem Parts.Splits.parts_eq (splits : parts.Splits forms) : Guarded.parts forms = .ok parts := by
  obtain ⟨body, handlers, cleanup⟩ := parts
  obtain ⟨plain, headed, final, rfl⟩ := splits
  dsimp only at plain headed final ⊢
  induction body with
  | nil =>
    have first : ∀ form ∈ (handlers.map Clause.form ++ cleanup.toList.map Clause.form).head?,
        ¬ Unclaused form := by
      intro form found other
      rcases List.mem_append.mp (List.mem_of_mem_head? found) with handler | last
      · obtain ⟨clause, member, rfl⟩ := List.mem_map.mp handler
        exact other.1 (headed clause member)
      · obtain ⟨clause, member, rfl⟩ := List.mem_map.mp last
        exact other.2 (final clause (Option.mem_toList.mp member))
    rw [List.nil_append, parts_of_clause first, clauses_map_form headed final]
    rfl
  | cons form rest ih =>
    obtain ⟨first, others⟩ := List.forall_mem_cons.mp plain
    rw [List.cons_append, List.cons_append, parts_cons_unclaused first, ih others]
    rfl

theorem exists_splits_iff : (∃ parts : Parts, parts.Splits forms) ↔ InOrder forms := by
  constructor
  · rintro ⟨⟨body, handlers, cleanup⟩, plain, headed, final, rfl⟩
    refine ⟨body, _, _, rfl, plain, by simpa using headed, by simpa using final, ?_⟩
    cases cleanup <;> simp
  · rintro ⟨body, handlers, cleanup, rfl, plain, headed, final, single⟩
    obtain ⟨handlers, rfl⟩ := exists_map_form headed
    cases cleanup with
    | nil => exact ⟨⟨body, handlers, none⟩, plain, by simpa using headed, by simp, by simp⟩
    | cons last more =>
      obtain rfl : more = [] := by simpa using single
      obtain ⟨clause, rfl⟩ := exists_clause_form (final last List.mem_cons_self)
      exact ⟨⟨body, handlers, some clause⟩, plain, by simpa using headed, by simpa using final,
        by simp⟩

theorem inOrder_iff : InOrder forms ↔ ∃ parts, Guarded.parts forms = .ok parts :=
  exists_splits_iff.symm.trans
    (exists_congr fun _ => ⟨fun splits => splits.parts_eq, splits_of_parts⟩)

/-- The forms up to a stray one decide that it is reported. -/
theorem parts_eq_error (refused : Guarded.parts forms = .error error) :
    ∃ before stray after, forms = before ++ stray :: after ∧
      error = .atForm .strayTryForm stray ∧ (∃ parts, Guarded.parts before = .ok parts) ∧
      ∀ rest, Guarded.parts (before ++ stray :: rest) = .error error := by
  induction forms with
  | nil => contradiction
  | cons form rest ih =>
    by_cases plain : Unclaused form
    · rw [parts_cons_unclaused plain] at refused
      obtain ⟨before, stray, after, rfl, same, ⟨parts, front⟩, always⟩ :=
        ih (map_eq_error.mp refused)
      refine ⟨form :: before, stray, after, rfl, same,
        ⟨{ parts with body := form :: parts.body }, ?_⟩, fun rest => ?_⟩
      · rw [parts_cons_unclaused plain, front]
        rfl
      · rw [List.cons_append, parts_cons_unclaused plain, always rest]
        rfl
    · -- The list starts with a clause, and so do `before` and all of its extensions.
      rw [parts_of_clause (by simpa using plain)] at refused
      obtain ⟨before, stray, after, split, same, ⟨read, front⟩, always⟩ :=
        clauses_eq_error (map_eq_error.mp refused)
      have starts (rest : List Form) :
          ∀ first ∈ (before ++ stray :: rest).head?, ¬ Unclaused first := by
        have head : (before ++ stray :: rest).head? = some form := by
          have own := congrArg List.head? split
          cases before <;> simpa using own.symm
        simpa [head] using plain
      have startsBefore : ∀ first ∈ before.head?, ¬ Unclaused first := by
        have whole := starts []
        cases before with
        | nil => simp
        | cons first others => simpa using whole
      refine ⟨before, stray, after, split, same, ⟨⟨[], read.1, read.2⟩, ?_⟩, fun rest => ?_⟩
      · rw [parts_of_clause startsBefore, front]
        rfl
      · rw [parts_of_clause (starts rest), always rest]
        rfl

/-- The first form up to which the list is not in order. -/
def FirstStray (forms : List Form) (stray : Form) : Prop :=
  ∃ before after, forms = before ++ stray :: after ∧ InOrder before ∧ ¬ InOrder (before ++ [stray])

theorem not_inOrder_of_parts (refused : Guarded.parts forms = .error error) : ¬ InOrder forms := by
  rw [inOrder_iff, refused]
  simp

theorem parts_eq_error_iff :
    Guarded.parts forms = .error error ↔
      ∃ stray, FirstStray forms stray ∧ error = .atForm .strayTryForm stray := by
  constructor
  · intro refused
    obtain ⟨before, stray, after, split, same, front, always⟩ := parts_eq_error refused
    exact ⟨stray, ⟨before, after, split, inOrder_iff.mpr front, not_inOrder_of_parts (always [])⟩,
      same⟩
  · rintro ⟨stray, ⟨before, after, rfl, front, broken⟩, rfl⟩
    rcases read : Guarded.parts (before ++ [stray]) with error | parts
    · obtain ⟨earlier, first, others, split, rfl, _, always⟩ := parts_eq_error read
      rcases List.eq_nil_or_concat others with rfl | ⟨more, last, rfl⟩
      · obtain ⟨rfl, last⟩ := List.append_inj' split rfl
        obtain rfl := (List.cons.inj last).1
        exact always after
      · -- A form before the last one would be stray in `before` already.
        rw [List.concat_eq_append, ← List.cons_append, ← List.append_assoc] at split
        obtain ⟨rfl, _⟩ := List.append_inj' split rfl
        exact (not_inOrder_of_parts (always more) front).elim
    · exact (broken (inOrder_iff.mpr ⟨parts, read⟩)).elim

/-- The scan of a `try` accepts the lists that are in order and divides them without loss. It
refuses any other list, with `Invalid 'try form` at the first stray form; then the analysis ends
with this error and has changed nothing. -/
theorem try_clauses_in_order (forms : List Form) :
    ((∃ parts, Guarded.parts forms = .ok parts) ↔ InOrder forms) ∧
    (∀ parts, Guarded.parts forms = .ok parts ↔ parts.Splits forms) ∧
    (∀ error, Guarded.parts forms = .error error ↔
      ∃ stray, FirstStray forms stray ∧ error = .atForm .strayTryForm stray) ∧
    (∀ stray, FirstStray forms stray →
      (AnalysisError.atForm .strayTryForm stray).message = "Invalid 'try form" ∧
      (AnalysisError.atForm .strayTryForm stray).span = stray.span ∧
      ∀ (analyzer : Analyzer) (nameSpan span : Option Span) (nameMetadata metadata : Entries)
        (scope : Scope) (s : State),
        analyzer.analyze
          (.list (.symbol SpecialForm.guarded.name nameSpan nameMetadata :: forms) span metadata)
          scope s = (.error (.atForm .strayTryForm stray), s)) := by
  refine ⟨inOrder_iff.symm, fun _ => ⟨splits_of_parts, fun splits => splits.parts_eq⟩,
    fun _ => parts_eq_error_iff, fun stray first => ⟨rfl, rfl, ?_⟩⟩
  intro analyzer nameSpan span nameMetadata metadata scope s
  have refused := parts_eq_error_iff.mpr ⟨stray, first, rfl⟩
  obtain ⟨expand, depth, special⟩ :=
    analyzer.analyze_special .guarded nameSpan span nameMetadata metadata forms scope
  rw [special]
  exact fails_bind.mpr (.inl (fails_ofExcept.mpr ⟨refused, rfl⟩))

/-- The forms `1 (catch \Exception e)`. -/
def handledForms : List Form :=
  [.int 1, .list [.plainSymbol "catch", .plainSymbol "\\Exception", .plainSymbol "e"] none []]

/-- The symbol `late` in the second line. -/
def lateForm : Form := .symbol (.plain "late") (some ⟨2, 1, 2, 5, none⟩) []

/-- The forms `1 (catch \Exception e) late (finally)`. -/
def lateForms : List Form :=
  handledForms ++ [lateForm, .list [.plainSymbol "finally"] none []]

theorem try_clauses_in_order_late : InOrder handledForms ∧ FirstStray lateForms lateForm ∧
    ({} : Analyzer).analyze (.list (.symbol SpecialForm.guarded.name none [] :: lateForms) none [])
      .top { registry := .ofSettings {} } =
        (.error { fault := .strayTryForm, span := some ⟨2, 1, 2, 5, none⟩ },
          { registry := .ofSettings {} }) := by
  have handled : InOrder handledForms := (try_clauses_in_order handledForms).1.mp ⟨_, rfl⟩
  have broken : ¬ InOrder (handledForms ++ [lateForm]) := by
    rw [← (try_clauses_in_order _).1]
    rintro ⟨_, read⟩
    contradiction
  have first : FirstStray lateForms lateForm := ⟨handledForms, _, rfl, handled, broken⟩
  obtain ⟨_, _, _, reported⟩ := try_clauses_in_order lateForms
  exact ⟨handled, first, (reported lateForm first).2.2 {} none none [] [] .top _⟩

end LispFront.Guarded
