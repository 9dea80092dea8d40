import LispFront.Proofs.Acceptance
import LispFront.Proofs.Destructuring
import LispFront.Proofs.Rounds

/-! A loop over patterns is lowered to a `let`, a loop and a `let`. Names that only plain symbols
bind have in its body the values of a `let` with the same bindings, and so do names that a pattern
binds last. The inner `let` binds the names of patterns once more, so a pattern wins over a plain
symbol that comes after it. -/

namespace LispFront

universe u

namespace Reading

variable {V : Type u} {reading : Reading V} {core : String} {env other : Name → V} {name : Name}

/-- A name that is bound does not keep what it was. -/
theorem assign_of_bound {value : V} {targets : List Pattern.Target}
    (bound : ∃ target ∈ targets, target.name = name) :
    reading.assign value targets env name = reading.assign value targets other name := by
  induction targets generalizing env other with
  | nil => simp at bound
  | cons target rest ih =>
    unfold assign
    by_cases later : ∃ target ∈ rest, target.name = name
    · exact ih later
    · have absent : ∀ target ∈ rest, target.name ≠ name := fun target member same =>
        later ⟨target, member, same⟩
      have own : target.name = name := by
        obtain ⟨found, member, same⟩ := bound
        rcases List.mem_cons.mp member with rfl | member
        · exact same
        · exact (absent found member same).elim
      rw [assign_of_absent absent, assign_of_absent absent, own, Function.update_self,
        Function.update_self]

theorem bindAll_append {first second : List (Form × Form)} :
    reading.bindAll core (first ++ second) env =
      reading.bindAll core second (reading.bindAll core first env) := by
  induction first generalizing env with
  | nil => rfl
  | cons pair rest ih => exact ih

end Reading

namespace Pattern

/-- Whether the pattern of the pair binds the name. -/
def binds (name : Name) (pair : Form × Form) : Bool :=
  (targets pair.1).any fun target => decide (target.name = name)

variable {name : Name} {pair : Form × Form}

theorem binds_eq_true : binds name pair = true ↔ ∃ target ∈ targets pair.1, target.name = name := by
  simp [binds]

theorem binds_eq_false :
    binds name pair = false ↔ ∀ target ∈ targets pair.1, target.name ≠ name := by
  simp [binds]

end Pattern

theorem Reading.bindAll_of_absent {V : Type u} {reading : Reading V} {core : String}
    {env : Name → V} {name : Name} {pairs : List (Form × Form)}
    (absent : ∀ pair ∈ pairs, Pattern.binds name pair = false) :
    reading.bindAll core pairs env name = env name := by
  induction pairs generalizing env with
  | nil => rfl
  | cons pair rest ih =>
    obtain ⟨own, others⟩ := List.forall_mem_cons.mp absent
    rw [bindAll, ih others, assign_of_absent (Pattern.binds_eq_false.mp own)]

namespace Pattern

/-- The pairs of the outer `let`. -/
abbrev outers (n : NameSupply) (pairs : List (Form × Form)) : List (Form × Form) :=
  (rounds n pairs).flatMap Round.outer

/-- The pairs of the inner `let`. -/
abbrev inners (n : NameSupply) (pairs : List (Form × Form)) : List (Form × Form) :=
  (rounds n pairs).flatMap Round.inner

/-- A fresh name of one of the pairs. -/
def IsDrawn (n : NameSupply) (pairs : List (Form × Form)) (form : Form) : Prop :=
  ∃ index span, index < freshCount pairs ∧ form = (n.temp index span).form

variable {n m base : NameSupply} {pairs rest others before after : List (Form × Form)}
variable {pair : Form × Form} {name : Name}

/-- Pattern and value stand in the pairs or are fresh names for them. -/
structure MadeOf (n : NameSupply) (pairs : List (Form × Form)) (pair : Form × Form) : Prop where
  pattern : (∃ own ∈ pairs, own.1 = pair.1) ∨ IsDrawn n pairs pair.1
  value : (∃ own ∈ pairs, own.2 = pair.2) ∨ IsDrawn n pairs pair.2

theorem mem_outers (member : pair ∈ outers n pairs) : MadeOf n pairs pair := by
  obtain ⟨round, listed, member⟩ := List.mem_flatMap.mp member
  have own : (round.pattern, round.init) ∈ pairs :=
    map_rounds pairs n ▸ List.mem_map_of_mem listed
  unfold Round.outer at member
  rcases temp_of_mem_rounds listed with ⟨_, temp⟩ | ⟨_, index, bound, temp⟩
  · rw [temp] at member
    obtain rfl := List.mem_singleton.mp member
    exact ⟨.inl ⟨_, own, rfl⟩, .inl ⟨_, own, rfl⟩⟩
  · rw [temp] at member
    have drawn : IsDrawn n pairs (n.temp index round.pattern.span).form :=
      ⟨index, _, bound, rfl⟩
    rcases List.mem_cons.mp member with rfl | member
    · exact ⟨.inr drawn, .inl ⟨_, own, rfl⟩⟩
    · obtain rfl := List.mem_singleton.mp member
      exact ⟨.inl ⟨_, own, rfl⟩, .inr drawn⟩

theorem mem_inners (member : pair ∈ inners n pairs) :
    (∃ own ∈ pairs, isSimple own.1 = false ∧ own.1 = pair.1) ∧ IsDrawn n pairs pair.2 := by
  obtain ⟨round, listed, member⟩ := List.mem_flatMap.mp member
  have own : (round.pattern, round.init) ∈ pairs :=
    map_rounds pairs n ▸ List.mem_map_of_mem listed
  unfold Round.inner at member
  rcases temp_of_mem_rounds listed with ⟨_, temp⟩ | ⟨composite, index, bound, temp⟩
  · rw [temp] at member
    contradiction
  · rw [temp] at member
    obtain rfl := List.mem_singleton.mp member
    exact ⟨⟨_, own, composite, rfl⟩, index, _, bound, rfl⟩

theorem madeOf_inners (member : pair ∈ inners n pairs) : MadeOf n pairs pair := by
  obtain ⟨⟨own, listed, _, same⟩, drawn⟩ := mem_inners member
  exact ⟨.inl ⟨own, listed, same⟩, .inr drawn⟩

/-- What is made of the pairs is no name of the supply that is left. -/
theorem PairsClear.of_parts (clear : PairsClear n pairs)
    (later : n.count + freshCount pairs ≤ m.count) (parts : ∀ pair ∈ others, MadeOf n pairs pair) :
    PairsClear m others := by
  have spared (index : Nat) (span : Option Span) (bound : index < freshCount pairs) :
      m.Spares (n.temp index span).name := NameSupply.spares_temp.mpr (by omega)
  constructor
  · intro pair member
    rcases (parts pair member).pattern with ⟨own, listed, same⟩ | ⟨index, span, bound, same⟩
    · rw [← same]
      exact (clear.patterns own listed).later (by omega)
    · rw [same]
      constructor
      · exact List.forall_mem_singleton.mpr (spared index span bound)
      · exact List.forall_mem_singleton.mpr (List.forall_mem_nil _)
  · intro pair member name mentioned
    rcases (parts pair member).value with ⟨own, listed, same⟩ | ⟨index, span, bound, same⟩
    · rw [← same] at mentioned
      exact (clear.values own listed name mentioned).later (by omega)
    · obtain rfl : (n.temp index span).name = name := by
        rw [same] at mentioned
        simpa [Symbol.form, Form.mentions, Form.mentionsEntries, Name.only, NameSupply.temp,
          NameSupply.numbered, Symbol.plain] using mentioned
      exact spared index span bound

theorem outers_append (first second : List (Form × Form)) :
    outers n (first ++ second) =
      outers n first ++ outers (n.afterTemps (freshCount first)) second := by
  rw [outers, rounds_append, List.flatMap_append]

theorem inners_append (first second : List (Form × Form)) :
    inners n (first ++ second) =
      inners n first ++ inners (n.afterTemps (freshCount first)) second := by
  rw [inners, rounds_append, List.flatMap_append]

/-- Only plain symbols bind the name, or a pattern binds it last. -/
def settled (name : Name) (pairs : List (Form × Form)) : Bool :=
  (pairs.all fun pair => isSimple pair.1 || !binds name pair) ||
    (pairs.reverse.find? (binds name)).any fun last => !isSimple last.1

theorem settled_cases (settled : settled name pairs = true) :
    (∀ pair ∈ pairs, isSimple pair.1 = false → binds name pair = false) ∨
    ∃ before last after, pairs = before ++ last :: after ∧ isSimple last.1 = false ∧
      binds name last = true ∧ ∀ pair ∈ after, binds name pair = false := by
  rw [Pattern.settled, Bool.or_eq_true, List.all_eq_true, Option.any_eq_true] at settled
  rcases settled with simple | ⟨last, found, composite⟩
  · left
    intro pair member composite
    simpa [composite] using simple pair member
  · right
    obtain ⟨bound, after, before, split, absent⟩ := List.find?_eq_some_iff_append.mp found
    refine ⟨before.reverse, last, after.reverse, ?_, by simpa using composite, bound, ?_⟩
    · rw [← List.reverse_reverse pairs, split]
      simp
    · intro pair member
      simpa using absent pair (List.mem_reverse.mp member)

section Values

open Reading

variable {V : Type u} {reading : Reading V} {core : String} {env other : Name → V}

theorem outers_cons_simple (simple : isSimple pair.1 = true) :
    outers n (pair :: rest) = pair :: outers n rest := by
  simp [outers, rounds, simple, Round.outer]

theorem outers_cons_pattern (composite : isSimple pair.1 = false) :
    outers n (pair :: rest) = ((n.temp 0 pair.1.span).form, pair.2) ::
      (pair.1, (n.temp 0 pair.1.span).form) :: outers (n.issue .temp).2 rest := by
  simp [outers, rounds, composite, Round.outer]

/-- A fresh name for a value, and then the pattern from this name. -/
theorem bindAll_outers_pattern (composite : isSimple pair.1 = false) :
    reading.bindAll core (outers n (pair :: rest)) env =
      reading.bindAll core (outers (n.issue .temp).2 rest)
        (reading.assign (reading.eval core env pair.2) (targets pair.1)
          (Function.update env (n.temp 0 pair.1.span).name (reading.eval core env pair.2))) := by
  rw [outers_cons_pattern composite]
  simp [bindAll, targets, Symbol.form, assign, eval]

/-- The outer `let` gives names the values of a `let` with the pairs themselves. -/
theorem agree_outers (start : base.count ≤ n.count) (clear : PairsClear base pairs)
    (same : base.Agree env other) :
    base.Agree (reading.bindAll core (outers n pairs) env) (reading.bindAll core pairs other) := by
  induction pairs generalizing n env other with
  | nil => exact same
  | cons pair rest ih =>
    have value : reading.eval core env pair.2 = reading.eval core other pair.2 :=
      eval_agree same (clear.values pair List.mem_cons_self)
    have restClear := clear.mono (List.subset_cons_self _ _)
    by_cases simple : isSimple pair.1 = true
    · rw [outers_cons_simple simple, bindAll, value]
      exact ih start restClear (agree_assign same)
    · rw [bindAll_outers_pattern (Bool.eq_false_iff.mpr simple), bindAll, value]
      refine ih (Nat.le_succ_of_le start) restClear (agree_assign ?_)
      intro name spared
      rw [agree_update_temp start name spared, same name spared]

/-- No later pair binds a fresh name again. -/
theorem outers_absent {index : Nat} {span : Option Span} (clear : PairsClear n pairs)
    (start : n.count + index < m.count) :
    ∀ pair ∈ outers m pairs, binds (n.temp index span).name pair = false := by
  intro pair member
  rw [binds_eq_false]
  rcases (mem_outers member).pattern with ⟨own, listed, same⟩ | ⟨later, place, _, same⟩
  · rw [← same]
    exact (clear.patterns own listed).apart
  · rw [same]
    refine List.forall_mem_singleton.mpr fun names => ?_
    have numbers := (NameSupply.numbered_inj names).2
    omega

/-- The fresh name of a pair holds the value that the pair has in a `let`. -/
theorem bindAll_outers_temp (composite : isSimple pair.1 = false)
    (clear : PairsClear n (before ++ pair :: after)) :
    reading.bindAll core (outers n (before ++ pair :: after)) env
        (n.temp (freshCount before) pair.1.span).name =
      reading.eval core (reading.bindAll core before env) pair.2 := by
  have beforeClear := clear.mono (List.subset_append_left before (pair :: after))
  have afterClear : PairsClear n after := clear.mono fun _ member =>
    List.mem_append_right _ (List.mem_cons_of_mem _ member)
  have listed : pair ∈ before ++ pair :: after := List.mem_append_right _ List.mem_cons_self
  have value : reading.eval core (reading.bindAll core (outers n before) env) pair.2 =
      reading.eval core (reading.bindAll core before env) pair.2 :=
    eval_agree (agree_outers (Nat.le_refl _) beforeClear fun _ _ => rfl)
      (clear.values pair listed)
  have start : n.count + freshCount before <
      ((n.afterTemps (freshCount before)).issue .temp).2.count := by
    rw [NameSupply.count_issue, NameSupply.count_afterTemps]
    exact Nat.lt_succ_self _
  rw [outers_append, bindAll_append, bindAll_outers_pattern composite, value,
    NameSupply.temp_afterTemps, bindAll_of_absent (outers_absent afterClear start),
    assign_of_absent (clear.patterns pair listed).apart]
  exact Function.update_self ..

theorem inners_cons_pattern (composite : isSimple pair.1 = false) :
    inners n (pair :: rest) = (pair.1, (n.temp 0 pair.1.span).form) ::
      inners (n.issue .temp).2 rest := by
  simp [inners, rounds, composite, Round.inner]

/-- The inner `let` binds what patterns bind. -/
theorem inners_absent
    (absent : ∀ pair ∈ pairs, isSimple pair.1 = false → binds name pair = false) :
    ∀ pair ∈ inners n pairs, binds name pair = false := by
  intro pair member
  obtain ⟨own, listed, composite, same⟩ := (mem_inners member).1
  rw [binds, ← same]
  exact absent own listed composite

/-- In the inner `let` a name has the part of the last pattern that binds it. -/
theorem bindAll_inners (composite : isSimple pair.1 = false)
    (clear : PairsClear n (before ++ pair :: after)) (bound : binds name pair = true)
    (last : ∀ pair ∈ after, isSimple pair.1 = false → binds name pair = false) :
    reading.bindAll core (inners n (before ++ pair :: after)) env name =
      reading.assign (env (n.temp (freshCount before) pair.1.span).name) (targets pair.1)
        other name := by
  have kept : reading.bindAll core (inners n before) env
      (n.temp (freshCount before) pair.1.span).name =
      env (n.temp (freshCount before) pair.1.span).name := by
    refine bindAll_of_absent (inners_absent fun own listed _ => binds_eq_false.mpr ?_)
    exact (clear.patterns own (List.mem_append_left _ listed)).apart
  have value : reading.eval core (reading.bindAll core (inners n before) env)
      (n.temp (freshCount before) pair.1.span).form =
      env (n.temp (freshCount before) pair.1.span).name := kept
  rw [inners_append, bindAll_append, inners_cons_pattern composite, NameSupply.temp_afterTemps,
    bindAll, bindAll_of_absent (inners_absent last), value]
  exact assign_of_bound (binds_eq_true.mp bound)

/-- Giving names their own values changes nothing. -/
theorem run_simplePairs_self (same : ∀ pair ∈ pairs, pair.1 = pair.2) :
    reading.run core (Binder.simplePairs pairs) env = env := by
  induction pairs with
  | nil => rfl
  | cons pair rest ih =>
    obtain ⟨pattern, init⟩ := pair
    obtain ⟨own, others⟩ := List.forall_mem_cons.mp same
    cases plain : pattern.plainSymbol? with
    | none =>
      have none : Binder.simplePairs ((pattern, init) :: rest) = Binder.simplePairs rest := by
        simp [Binder.simplePairs, plain]
      rw [none, ih others]
    | some symbol =>
      have some : Binder.simplePairs ((pattern, init) :: rest) =
          (symbol, init) :: Binder.simplePairs rest := by
        simp [Binder.simplePairs, plain]
      obtain rfl : symbol.form = init := (Form.plainSymbol?_eq_some plain).symm.trans own
      rw [some, run, Symbol.form, eval, Function.update_eq_self, ih others]

/-- The `let` forms of a lowered loop are lowered in their turn, each from a supply that has
drawn the names of the loop. -/
structure NestLowered (core : String) (n : NameSupply) (pairs : List (Form × Form))
    (outerFlat innerFlat : List (Symbol × Form)) : Prop where
  outer : ∃ first m, n.count + freshCount pairs ≤ first.count ∧
    Gives (lowerPairs core (outers n pairs)) first outerFlat m
  inner : ∃ third m, n.count + freshCount pairs ≤ third.count ∧
    Gives (lowerPairs core (inners n pairs)) third innerFlat m

variable {outerFlat innerFlat : List (Symbol × Form)}

theorem NestLowered.outer_value (lowered : NestLowered core n pairs outerFlat innerFlat)
    (clear : PairsClear n pairs)
    (taken : ∀ m : NameSupply, n.count + freshCount pairs ≤ m.count → m.Spares name) :
    reading.run core outerFlat env name = reading.bindAll core (outers n pairs) env name := by
  obtain ⟨first, m, later, run⟩ := lowered.outer
  have outerClear : PairsClear first (outers n pairs) :=
    clear.of_parts later fun _ => mem_outers
  exact lowerPairs_meaning outerClear run name (taken first later)

theorem NestLowered.inner_value (lowered : NestLowered core n pairs outerFlat innerFlat)
    (clear : PairsClear n pairs) (spared : n.Spares name) :
    reading.run core innerFlat env name = reading.bindAll core (inners n pairs) env name := by
  obtain ⟨third, m, later, run⟩ := lowered.inner
  have innerClear : PairsClear third (inners n pairs) :=
    clear.of_parts later fun _ => madeOf_inners
  exact lowerPairs_meaning innerClear run name (spared.later (by omega))

/-- A name that no pattern binds has in the innermost body the value of the `let`. -/
theorem NestLowered.value_of_simple (lowered : NestLowered core n pairs outerFlat innerFlat)
    (clear : PairsClear n pairs) (spared : n.Spares name)
    (simple : ∀ pair ∈ pairs, isSimple pair.1 = false → binds name pair = false) :
    reading.run core innerFlat (reading.run core outerFlat env) name =
      reading.bindAll core pairs env name := by
  have taken (m : NameSupply) (later : n.count + freshCount pairs ≤ m.count) : m.Spares name :=
    spared.later (by omega)
  rw [lowered.inner_value clear spared, bindAll_of_absent (inners_absent simple),
    lowered.outer_value clear taken]
  exact agree_outers (Nat.le_refl _) clear (fun _ _ => rfl) name spared

/-- A name that a pattern binds has the part of the last one, whatever plain symbols come
after it. -/
theorem NestLowered.value_of_pattern
    (lowered : NestLowered core n (before ++ pair :: after) outerFlat innerFlat)
    (clear : PairsClear n (before ++ pair :: after)) (spared : n.Spares name)
    (composite : isSimple pair.1 = false) (bound : binds name pair = true)
    (last : ∀ pair ∈ after, isSimple pair.1 = false → binds name pair = false) :
    reading.run core innerFlat (reading.run core outerFlat env) name =
      reading.bindAll core (before ++ [pair]) env name := by
  have taken (m : NameSupply) (later : n.count + freshCount (before ++ pair :: after) ≤ m.count) :
      m.Spares (n.temp (freshCount before) pair.1.span).name := by
    have count : freshCount (before ++ pair :: after) =
        freshCount before + (freshCount after + 1) := by
      simp [freshCount, composite]
    rw [NameSupply.spares_temp]
    omega
  rw [lowered.inner_value clear spared, bindAll_inners composite clear bound last,
    lowered.outer_value clear taken, bindAll_outers_temp composite clear, bindAll_append]
  rfl

/-- A name that is settled has the value of the `let`. -/
theorem NestLowered.value_of_settled (lowered : NestLowered core n pairs outerFlat innerFlat)
    (clear : PairsClear n pairs) (spared : n.Spares name) (settled : settled name pairs = true) :
    reading.run core innerFlat (reading.run core outerFlat env) name =
      reading.bindAll core pairs env name := by
  rcases settled_cases settled with simple | ⟨before, last, after, rfl, composite, bound, absent⟩
  · exact lowered.value_of_simple clear spared simple
  · have patterns : ∀ pair ∈ after, isSimple pair.1 = false → binds name pair = false :=
      fun pair member _ => absent pair member
    have untouched : reading.bindAll core (before ++ last :: after) env name =
        reading.bindAll core (before ++ [last]) env name := by
      rw [List.append_cons before last after, bindAll_append, bindAll_of_absent absent]
    rw [lowered.value_of_pattern clear spared composite bound patterns, untouched]

end Values

/-- The patterns of the `let` forms are those of the loop, and plain symbols. -/
theorem refusal_of_parts (accepted : ∀ pair ∈ pairs, refusal pair.1 = none)
    (parts : ∀ pair ∈ others, MadeOf n pairs pair) : ∀ pair ∈ others, refusal pair.1 = none := by
  intro pair member
  rcases (parts pair member).pattern with ⟨own, listed, same⟩ | ⟨index, span, _, same⟩
  · rw [← same]
    exact accepted own listed
  · rw [same]
    rfl

end Pattern

/-- The body of a form is entered with these values: that of a `let`, or that of a loop over
plain symbols in its first round. -/
inductive Reading.Enters {V : Type u} (reading : Reading V) (core : String) (n : NameSupply)
    (env : Name → V) : Form → (Name → V) → List Form → Prop where
  | letIn {head : Form} {args body : List Form} {span : Option Span} {metadata : Entries}
      {pairs : List (Form × Form)} {flat : List (Symbol × Form)} {m : NameSupply}
      (named : head.isNamed "let" = true)
      (read : Binder.header .letIn args span = .ok (pairs, body))
      (lowered : Gives (Pattern.lowerPairs core pairs) n flat m) :
      Enters reading core n env (.list (head :: args) span metadata)
        (reading.run core flat env) body
  | loop {head : Form} {args body : List Form} {span : Option Span} {metadata : Entries}
      {pairs : List (Form × Form)} (named : head.isNamed "loop" = true)
      (read : Binder.header .loop args span = .ok (pairs, body))
      (simple : (pairs.all fun pair => Pattern.isSimple pair.1) = true) :
      Enters reading core n env (.list (head :: args) span metadata)
        (reading.run core (Binder.simplePairs pairs) env) body

namespace Reading

variable {V : Type u} {reading : Reading V} {core : String} {n : NameSupply} {env : Name → V}

theorem Enters.ofLetForm {pairs : List (Form × Form)} {body : List Form} {span : Option Span}
    {flat : List (Symbol × Form)} {m : NameSupply}
    (lowered : Gives (Pattern.lowerPairs core pairs) n flat m) :
    reading.Enters core n env (Pattern.letForm (Binder.flatten pairs) body span)
      (reading.run core flat env) body :=
  .letIn rfl (Binder.header_flatten ..) lowered

theorem Enters.ofLoopForm {pairs : List (Form × Form)} {body : List Form} {span : Option Span}
    (simple : (pairs.all fun pair => Pattern.isSimple pair.1) = true) :
    reading.Enters core n env (Pattern.loopForm (Binder.flatten pairs) body span)
      (reading.run core (Binder.simplePairs pairs) env) body :=
  .loop rfl (Binder.header_flatten ..) simple

theorem Enters.gives_lowerPairs {args body : List Form} {span : Option Span} {metadata : Entries}
    {pairs : List (Form × Form)} {letEnv : Name → V}
    (entered : reading.Enters core n env (.list (.plainSymbol "let" :: args) span metadata)
      letEnv body) (read : Binder.header .loop args span = .ok (pairs, body)) :
    ∃ flat m, Gives (Pattern.lowerPairs core pairs) n flat m ∧
      letEnv = reading.run core flat env := by
  cases entered with
  | letIn named letRead lowered =>
    obtain ⟨items, place, own, rfl, paired⟩ := Binder.header_eq_ok read
    simp only [Binder.header, paired] at letRead
    obtain ⟨rfl, _⟩ := Prod.mk.inj (Except.ok.inj letRead)
    exact ⟨_, _, lowered, rfl⟩
  | loop named => contradiction

end Reading

open Pattern in
/-- In the first round of a lowered loop every name has the value that it has in the body of a
`let` with the same bindings, unless a pattern binds it and a plain symbol is the last to bind
it. In any case a name that patterns bind has the part of the last of them. -/
theorem loop_body_values {V : Type u} (reading : Reading V) {core : String} {args body : List Form}
    {span : Option Span} {pairs : List (Form × Form)} {n m : NameSupply} {lowered : Form}
    {env letEnv : Name → V} (read : Binder.header .loop args span = .ok (pairs, body))
    (clear : PairsClear n pairs) (run : Gives (lowerLoop pairs body span) n lowered m)
    (entered : reading.Enters core n env (.list (.plainSymbol "let" :: args) span []) letEnv body)
    (first second third : NameSupply) (start : m.count ≤ first.count)
    (later : m.count ≤ third.count) :
    ∃ outerEnv loop loopEnv inner bodyEnv,
      reading.Enters core first env lowered outerEnv [loop] ∧
      reading.Enters core second outerEnv loop loopEnv [inner] ∧
      reading.Enters core third loopEnv inner bodyEnv body ∧
      ∀ name, n.Spares name →
        (settled name pairs = true → bodyEnv name = letEnv name) ∧
        ∀ before pair after, pairs = before ++ pair :: after → isSimple pair.1 = false →
          binds name pair = true →
          (∀ pair ∈ after, isSimple pair.1 = false → binds name pair = false) →
          bodyEnv name = reading.bindAll core (before ++ [pair]) env name := by
  obtain ⟨rfl, rfl⟩ := run.unique (gives_lowerLoop pairs body span n)
  rw [NameSupply.count_afterTemps] at start later
  obtain ⟨flat, final, letRun, rfl⟩ := entered.gives_lowerPairs read
  have accepted := exists_gives_lowerPairs.mp ⟨flat, final, letRun⟩
  obtain ⟨outerFlat, _, outerRun⟩ :
      ∃ flat m, Gives (lowerPairs core (outers n pairs)) first flat m :=
    exists_gives_lowerPairs.mpr (refusal_of_parts accepted fun _ => mem_outers)
  obtain ⟨innerFlat, _, innerRun⟩ :
      ∃ flat m, Gives (lowerPairs core (inners n pairs)) third flat m :=
    exists_gives_lowerPairs.mpr (refusal_of_parts accepted fun _ => madeOf_inners)
  have nested : NestLowered core n pairs outerFlat innerFlat :=
    ⟨⟨first, _, start, outerRun⟩, ⟨third, _, later, innerRun⟩⟩
  have names : reading.run core
      (Binder.simplePairs ((rounds n pairs).map fun round => (round.name, round.name)))
      (reading.run core outerFlat env) = reading.run core outerFlat env :=
    run_simplePairs_self (by simp)
  refine ⟨_, _, _, _, _, .ofLetForm outerRun, .ofLoopForm rounds_simple,
    .ofLetForm innerRun, fun name spared => ?_⟩
  rw [names]
  have letValue : reading.run core flat env name = reading.bindAll core pairs env name :=
    lowerPairs_meaning clear letRun name spared
  constructor
  · intro settled
    rw [letValue]
    exact nested.value_of_settled clear spared settled
  · rintro before pair after rfl composite bound last
    exact nested.value_of_pattern clear spared composite bound last

theorem loop_body_values_repeated : ∃ lowered m outerEnv loop loopEnv inner bodyEnv,
    Gives (Pattern.lowerLoop Pattern.repeatedPairs [.plainSymbol "a"] none) {} lowered m ∧
    Reading.digits.Enters "core" m (fun _ => 3) lowered outerEnv [loop] ∧
    Reading.digits.Enters "core" m outerEnv loop loopEnv [inner] ∧
    Reading.digits.Enters "core" m loopEnv inner bodyEnv [.plainSymbol "a"] ∧
    bodyEnv (.plain "a") = 3021 ∧ bodyEnv (.plain "n") = 30219 := by
  obtain ⟨flat, m, letRun, atA, atN⟩ : ∃ flat m,
      Gives (Pattern.lowerPairs "core" Pattern.repeatedPairs) {} flat m ∧
      Reading.digits.run "core" flat (fun _ => 3) (.plain "a") = 3021 ∧
      Reading.digits.run "core" flat (fun _ => 3) (.plain "n") = 30219 := ⟨_, _, rfl, rfl, rfl⟩
  have read : Binder.header .loop
      [.vector (Binder.flatten Pattern.repeatedPairs) none [], .plainSymbol "a"] none =
      .ok (Pattern.repeatedPairs, [.plainSymbol "a"]) := rfl
  have entered : Reading.digits.Enters "core" {} (fun _ => 3)
      (Pattern.letForm (Binder.flatten Pattern.repeatedPairs) [.plainSymbol "a"] none)
      (Reading.digits.run "core" flat fun _ => 3) [.plainSymbol "a"] := .ofLetForm letRun
  have lowered := Pattern.gives_lowerLoop Pattern.repeatedPairs [.plainSymbol "a"] none {}
  obtain ⟨outerEnv, loop, loopEnv, inner, bodyEnv, first, second, third, values⟩ :=
    loop_body_values Reading.digits read Pattern.repeatedPairs_clear lowered entered
      _ _ _ (Nat.le_refl _) (Nat.le_refl _)
  have valueOfA := (values (.plain "a") (NameSupply.spares_of_head (by decide))).1 rfl
  have valueOfN := (values (.plain "n") (NameSupply.spares_of_head (by decide))).1 rfl
  exact ⟨_, _, outerEnv, loop, loopEnv, inner, bodyEnv, lowered, first, second, third,
    valueOfA.trans atA, valueOfN.trans atN⟩

/-- `[a] [1] a 2` -/
def Pattern.plainLast : List (Form × Form) :=
  [(.vector [.plainSymbol "a"] none [], .vector [.int 1] none []), (.plainSymbol "a", .int 2)]

/-- A plain symbol that binds a name last loses it to a pattern before it. -/
theorem earlier_pattern_wins : ∃ lowered m outerEnv loop loopEnv inner bodyEnv letEnv,
    Gives (Pattern.lowerLoop Pattern.plainLast [.plainSymbol "a"] none) {} lowered m ∧
    Reading.digits.Enters "core" m (fun _ => 3) lowered outerEnv [loop] ∧
    Reading.digits.Enters "core" m outerEnv loop loopEnv [inner] ∧
    Reading.digits.Enters "core" m loopEnv inner bodyEnv [.plainSymbol "a"] ∧
    bodyEnv (.plain "a") = 90 ∧
    Reading.digits.Enters "core" {} (fun _ => 3)
      (Pattern.letForm (Binder.flatten Pattern.plainLast) [.plainSymbol "a"] none)
      letEnv [.plainSymbol "a"] ∧
    letEnv (.plain "a") = 2 := by
  refine ⟨_, _, _, _, _, _, _, _, Pattern.gives_lowerLoop .., .ofLetForm rfl,
    .ofLoopForm Pattern.rounds_simple, .ofLetForm rfl, ?_, .ofLetForm rfl, ?_⟩
  · rfl
  · rfl

end LispFront
