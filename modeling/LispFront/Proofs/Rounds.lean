import LispFront.Proofs.Draws
import LispFront.Proofs.Lowering

/-! Each pair of a loop header leaves its part in the three binding vectors of the lowered loop.
`Pattern.rounds` names these parts, and with them the lowered loop is written down without drawing
anything (`Pattern.gives_lowerLoop`). -/

namespace LispFront.Pattern

/-- One pair of a loop header, with the fresh name for its value. A plain symbol needs none. -/
structure Round where
  pattern : Form
  init : Form
  temp : Option Symbol

namespace Round

def outer (round : Round) : List (Form × Form) :=
  match round.temp with
  | some temp => [(temp.form, round.init), (round.pattern, temp.form)]
  | none => [(round.pattern, round.init)]

/-- The form that the loop binds. -/
def name (round : Round) : Form := round.temp.elim round.pattern Symbol.form

def inner (round : Round) : List (Form × Form) :=
  round.temp.toList.map fun temp => (round.pattern, temp.form)

end Round

def rounds : NameSupply → List (Form × Form) → List Round
  | _, [] => []
  | n, (pattern, init) :: rest =>
    if isSimple pattern then { pattern, init, temp := none } :: rounds n rest
    else { pattern, init, temp := n.temp 0 pattern.span } :: rounds (n.issue .temp).2 rest

/-- The number of pairs that need a fresh name. -/
def freshCount (pairs : List (Form × Form)) : Nat := pairs.countP fun pair => !isSimple pair.1

variable {pair : Form × Form} {pairs rest : List (Form × Form)} {n : NameSupply}

theorem freshCount_cons_simple (simple : isSimple pair.1 = true) :
    freshCount (pair :: rest) = freshCount rest := by
  simp [freshCount, simple]

theorem freshCount_cons_pattern (pattern : ¬ isSimple pair.1 = true) :
    freshCount (pair :: rest) = freshCount rest + 1 := by
  simp [freshCount, pattern]

theorem rounds_append (first second : List (Form × Form)) (n : NameSupply) :
    rounds n (first ++ second) =
      rounds n first ++ rounds (n.afterTemps (freshCount first)) second := by
  induction first generalizing n with
  | nil => rfl
  | cons pair rest ih =>
    by_cases simple : isSimple pair.1 = true
    · simp [rounds, simple, ih, freshCount_cons_simple simple]
    · rw [freshCount_cons_pattern simple, NameSupply.afterTemps_succ]
      simp [rounds, simple, ih]

theorem map_rounds (pairs : List (Form × Form)) (n : NameSupply) :
    (rounds n pairs).map (fun round => (round.pattern, round.init)) = pairs := by
  induction pairs generalizing n with
  | nil => rfl
  | cons pair rest ih =>
    unfold rounds
    split <;> simp [ih]

/-- Fresh names go to the patterns that are no plain symbols, and are located like them. -/
theorem temp_of_mem_rounds {round : Round} (member : round ∈ rounds n pairs) :
    (isSimple round.pattern = true ∧ round.temp = none) ∨
    (isSimple round.pattern = false ∧ ∃ index, index < freshCount pairs ∧
      round.temp = some (n.temp index round.pattern.span)) := by
  induction pairs generalizing n with
  | nil => contradiction
  | cons pair rest ih =>
    unfold rounds at member
    split at member
    next simple =>
      rcases List.mem_cons.mp member with rfl | later
      · exact .inl ⟨simple, rfl⟩
      · rw [freshCount_cons_simple simple]
        exact ih later
    next pattern =>
      rw [freshCount_cons_pattern pattern]
      rcases List.mem_cons.mp member with rfl | later
      · exact .inr ⟨Bool.eq_false_iff.mpr pattern, 0, by omega, rfl⟩
      · refine (ih later).imp_right fun ⟨own, index, bound, drawn⟩ =>
          ⟨own, index + 1, by omega, ?_⟩
        rw [drawn, NameSupply.temp_issue]

/-- The loop in the middle is over plain symbols. -/
theorem rounds_simple :
    (((rounds n pairs).map fun round => (round.name, round.name)).all
      fun pair => isSimple pair.1) = true := by
  rw [List.all_map, List.all_eq_true]
  intro round member
  rcases temp_of_mem_rounds member with ⟨simple, temp⟩ | ⟨_, index, _, temp⟩
  · simpa [Round.name, temp] using simple
  · simp only [Function.comp, Round.name, temp]
    rfl

/-- The binding vectors that the rounds make up. -/
def LoopHeader.ofRounds (rounds : List Round) : LoopHeader where
  outer := Binder.flatten (rounds.flatMap Round.outer)
  names := Binder.flatten (rounds.map fun round => (round.name, round.name))
  inner := Binder.flatten (rounds.flatMap Round.inner)

theorem gives_loopHeader (pairs : List (Form × Form)) (n : NameSupply) :
    Gives (loopHeader pairs) n (.ofRounds (rounds n pairs))
      (n.afterTemps (freshCount pairs)) := by
  induction pairs generalizing n with
  | nil => rfl
  | cons pair rest ih =>
    simp only [loopHeader, rounds]
    split
    next simple =>
      rw [freshCount_cons_simple simple]
      exact gives_bind.mpr ⟨_, _, ih n, gives_pure.mpr ⟨rfl, rfl⟩⟩
    next pattern =>
      rw [freshCount_cons_pattern pattern, NameSupply.afterTemps_succ]
      refine gives_bind.mpr ⟨_, _, NameSupply.gives_drawTemp.mpr ⟨rfl, rfl⟩, ?_⟩
      exact gives_bind.mpr ⟨_, _, ih _, gives_pure.mpr ⟨rfl, rfl⟩⟩

/-- A `let` of the first values, around a loop over plain symbols, around a `let` that takes the
values apart. -/
def nest (rounds : List Round) (body : List Form) (span : Option Span) : Form :=
  letForm (LoopHeader.ofRounds rounds).outer
    [loopForm (LoopHeader.ofRounds rounds).names
      [letForm (LoopHeader.ofRounds rounds).inner body span] span] span

theorem gives_lowerLoop (pairs : List (Form × Form)) (body : List Form) (span : Option Span)
    (n : NameSupply) :
    Gives (lowerLoop pairs body span) n (nest (rounds n pairs) body span)
      (n.afterTemps (freshCount pairs)) :=
  gives_bind.mpr ⟨_, _, gives_loopHeader pairs n, gives_pure.mpr ⟨rfl, rfl⟩⟩

end LispFront.Pattern
