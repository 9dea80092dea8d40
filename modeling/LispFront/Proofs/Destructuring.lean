import LispFront.Proofs.Draws
import LispFront.Proofs.Reading

/-! The bindings that lowering leaves have the effect of binding the patterns directly, on all names
but those that lowering draws (`Pattern.lowerPairs_meaning`). What carries the induction is that the
name for a whole value is taken when its parts are lowered, so none of them replaces it. -/

namespace LispFront

universe u

namespace NameSupply

/-- The name is none that the supply will still give to an intermediate value. -/
def Spares (supply : NameSupply) (name : Name) : Prop :=
  ∀ number, supply.count < number → name ≠ (numbered tempStem number).name

theorem Spares.later {n m : NameSupply} {name : Name} (spared : n.Spares name)
    (later : n.count ≤ m.count) : m.Spares name :=
  fun number new => spared number (Nat.lt_of_le_of_lt later new)

theorem spares_temp {n m : NameSupply} {index : Nat} {span : Option Span} :
    m.Spares (n.temp index span).name ↔ n.count + index < m.count := by
  constructor
  · intro spared
    by_contra early
    exact spared _ (by omega) rfl
  · intro taken number new same
    have numbers := (numbered_inj same).2
    omega

theorem spares_of_head {supply : NameSupply} {name : Name}
    (head : name.base.toList.head? ≠ some '_') : supply.Spares name := by
  rintro number _ rfl
  apply head
  simp [numbered, tempStem, Symbol.plain, Name.plain]

theorem not_spares_temp {n : NameSupply} {index : Nat} {span : Option Span} :
    ¬ n.Spares (n.temp index span).name := by
  rw [spares_temp]
  omega

end NameSupply

theorem DrawsTemps.count_le {α : Type} {draw : NameM α} {n m : NameSupply} {a : α}
    (temps : DrawsTemps draw) (run : Gives draw n a m) : n.count ≤ m.count := by
  obtain ⟨count, moved⟩ := temps n
  rw [show draw n = (.ok a, m) from run] at moved
  obtain rfl : m = n.afterTemps count := moved
  rw [NameSupply.count_afterTemps]
  exact Nat.le_add_right _ _

/-- The environments give the same value to every name that the supply spares. -/
def NameSupply.Agree {V : Type u} (supply : NameSupply) (env other : Name → V) : Prop :=
  ∀ name, supply.Spares name → env name = other name

namespace Pattern

/-- A pattern whose names the supply spares and whose keys are constant, those aside that
lead to no name. -/
structure Clear (supply : NameSupply) (targets : List Target) : Prop where
  spared : ∀ target ∈ targets, supply.Spares target.name
  constant : ∀ target ∈ targets, ∀ step ∈ target.path, step.IsConstant

variable {n m : NameSupply} {first second targets : List Target}

theorem Clear.later (clear : Clear n targets) (later : n.count ≤ m.count) : Clear m targets where
  spared target member := (clear.spared target member).later later
  constant := clear.constant

theorem Clear.left (clear : Clear n (first ++ second)) : Clear n first where
  spared target member := clear.spared target (List.mem_append_left _ member)
  constant target member := clear.constant target (List.mem_append_left _ member)

theorem Clear.right (clear : Clear n (first ++ second)) : Clear n second where
  spared target member := clear.spared target (List.mem_append_right _ member)
  constant target member := clear.constant target (List.mem_append_right _ member)

variable {step : Step} {pattern : Form}

theorem Target.under_of_named (named : pattern.isNamed ignoreMark = false) :
    Target.under step pattern targets =
      targets.map fun target => { target with path := step :: target.path } := by
  simp [Target.under, named]

theorem Clear.of_under (named : pattern.isNamed ignoreMark = false)
    (clear : Clear n (Target.under step pattern targets)) : Clear n targets := by
  rw [Target.under_of_named named] at clear
  constructor
  · intro target member
    exact clear.spared { target with path := step :: target.path } (List.mem_map_of_mem member)
  · intro target member inner listed
    exact clear.constant _ (List.mem_map_of_mem member) inner (List.mem_cons_of_mem _ listed)

theorem Clear.step_constant (named : pattern.isNamed ignoreMark = false)
    (clear : Clear n (Target.under step pattern targets)) (some : targets ≠ []) :
    step.IsConstant := by
  rw [Target.under_of_named named] at clear
  obtain ⟨target, member⟩ := List.exists_mem_of_ne_nil targets some
  exact clear.constant _ (List.mem_map_of_mem member) step List.mem_cons_self

/-- The form that takes the part at a step. -/
def Step.form (core : String) (whole : Symbol) (span : Option Span) : Step → Form
  | .element key => Pattern.element core whole key span
  | .remainder count => Pattern.remainder core whole count span

end Pattern

namespace Reading

open NameSupply

variable {V : Type u} {reading : Reading V} {core : String} {n m : NameSupply}
variable {env other : Name → V} {value : V} {first second targets : List Pattern.Target}

theorem eval_step {whole : Symbol} {span : Option Span} {step : Pattern.Step}
    (constant : step.IsConstant) :
    reading.eval core env (step.form core whole span) = reading.take (env whole.name) step := by
  cases step with
  | element key => rw [Pattern.Step.form, eval_element, eval_constant constant, take]
  | remainder count => rw [Pattern.Step.form, eval_remainder, take]

theorem eval_agree {form : Form} (same : n.Agree env other)
    (spared : ∀ name, form.mentions name.only = true → n.Spares name) :
    reading.eval core env form = reading.eval core other form :=
  eval_congr fun name mentioned => same name (spared name mentioned)

theorem agree_update {name : Name} (same : n.Agree env other) :
    n.Agree (Function.update env name value) (Function.update other name value) := by
  intro wanted spared
  by_cases own : wanted = name
  · simp [own]
  · simp [own, same wanted spared]

/-- A new name is not seen from the names that an earlier supply spares. -/
theorem agree_update_temp {index : Nat} {span : Option Span} (new : n.count ≤ m.count + index) :
    n.Agree (Function.update env (m.temp index span).name value) env := by
  intro name spared
  have apart : name ≠ (m.temp index span).name := by
    rintro rfl
    have taken := spares_temp.mp spared
    omega
  exact Function.update_of_ne apart _ _

theorem agree_assign (same : n.Agree env other) :
    n.Agree (reading.assign value targets env) (reading.assign value targets other) := by
  induction targets generalizing env other with
  | nil => exact same
  | cons target rest ih => exact ih (agree_update same)

end Reading

namespace Pattern

open Reading

variable {V : Type u} {reading : Reading V} {core : String}

/-- Lowering the pattern binds the parts of a value to its names. -/
def Means (reading : Reading V) (core : String) (pattern : Form) : Prop :=
  ∀ {value : Form} {n m : NameSupply} {flat : List (Symbol × Form)} {env : Name → V},
    Clear n (targets pattern) → Gives (lower core pattern value) n flat m →
    n.Agree (reading.run core flat env)
      (reading.assign (reading.eval core env value) (targets pattern) env)

variable {whole : Symbol} {span : Option Span} {n m : NameSupply} {flat : List (Symbol × Form)}
variable {env : Name → V}

theorem part_meaning {pattern : Form} {step : Step} (means : Means reading core pattern)
    (clear : Clear n (Target.under step pattern (targets pattern)))
    (run : Gives (unlessIgnored pattern (lower core pattern (step.form core whole span))) n
      flat m) :
    n.Agree (reading.run core flat env)
      (reading.assign (env whole.name) (Target.under step pattern (targets pattern)) env) := by
  intro name spared
  unfold unlessIgnored at run
  rw [assign_under]
  split at run
  next ignored =>
    obtain ⟨rfl, _⟩ := gives_pure.mp run
    rw [if_pos ignored]
    rfl
  next named =>
    have named := Bool.eq_false_iff.mpr named
    rw [if_neg (by simp [named]), means (clear.of_under named) run name spared]
    -- A key that leads to no name need not be constant, but then nothing is bound.
    by_cases none : targets pattern = []
    · simp [none, assign]
    · rw [eval_step (clear.step_constant named none)]

/-- The parts of one value, lowered one after the other. Its name is not bound again. -/
theorem parts_meaning {here there : List (Symbol × Form)} {first second : List Target}
    {value : V} (later : n.count ≤ m.count) (taken : n.Spares whole.name)
    (apart : ∀ target ∈ first, target.name ≠ whole.name) (held : env whole.name = value)
    (left : n.Agree (reading.run core here env) (reading.assign value first env))
    (right : ∀ {env : Name → V}, env whole.name = value →
      m.Agree (reading.run core there env) (reading.assign value second env)) :
    n.Agree (reading.run core (here ++ there) env)
      (reading.assign value (first ++ second) env) := by
  have holds : reading.run core here env whole.name = value := by
    rw [left whole.name taken, assign_of_absent apart, held]
  intro name spared
  rw [run_append, assign_append, right holds name (spared.later later)]
  exact agree_assign left name spared

/-- A value under a new name, and then its parts. -/
theorem whole_meaning {value : Form} {targets : List Target}
    (parts : ∀ {env : Name → V}, (n.issue .temp).2.Agree
      (reading.run core flat env) (reading.assign (env (n.temp 0 span).name) targets env)) :
    n.Agree (reading.run core ((n.temp 0 span, value) :: flat) env)
      (reading.assign (reading.eval core env value) targets env) := by
  intro name spared
  have named : n.Agree (Function.update env (n.temp 0 span).name (reading.eval core env value))
      env := agree_update_temp (Nat.le_add_right _ _)
  rw [Reading.run, parts name (spared.later (Nat.le_succ _)), Function.update_self]
  exact agree_assign named name spared

theorem Clear.apart {targets : List Target} {index : Nat} (clear : Clear n targets) :
    ∀ target ∈ targets, target.name ≠ (n.temp index span).name := by
  intro target member same
  exact NameSupply.not_spares_temp (same ▸ clear.spared target member)

theorem spares_next : (n.issue .temp).2.Spares (n.temp 0 span).name :=
  NameSupply.spares_temp.mpr (Nat.lt_succ_self _)

mutual
theorem lower_meaning : ∀ pattern : Form, Means reading core pattern
  | .symbol name span metadata, value, n, m, flat, env, _, run => by
    unfold lower at run
    split at run
    · exact (not_gives_throw run).elim
    · obtain ⟨rfl, _⟩ := gives_pure.mp run
      exact fun _ _ => rfl
  | .vector items span metadata, value, n, m, flat, env, clear, run => by
    unfold lower at run
    simp only [gives_bind, gives_pure, NameSupply.gives_drawTemp] at run
    obtain ⟨whole, _, ⟨rfl, rfl⟩, parts, _, lowered, rfl, _⟩ := run
    exact whole_meaning
      (lowerItems_meaning items spares_next (clear.later (Nat.le_succ _)) clear.apart lowered)
  | .map entries span metadata, value, n, m, flat, env, clear, run => by
    unfold lower at run
    simp only [gives_bind, gives_pure, NameSupply.gives_drawTemp] at run
    obtain ⟨whole, _, ⟨rfl, rfl⟩, parts, _, lowered, rfl, _⟩ := run
    exact whole_meaning
      (lowerEntries_meaning entries spares_next (clear.later (Nat.le_succ _)) clear.apart lowered)
  | .nil, _, _, _, _, _, _, run => (not_gives_throw run).elim
  | .bool _, _, _, _, _, _, _, run => (not_gives_throw run).elim
  | .int _, _, _, _, _, _, _, run => (not_gives_throw run).elim
  | .float _, _, _, _, _, _, _, run => (not_gives_throw run).elim
  | .str _, _, _, _, _, _, _, run => (not_gives_throw run).elim
  | .keyword _, _, _, _, _, _, _, run => (not_gives_throw run).elim
  | .list .., _, _, _, _, _, _, run => (not_gives_throw run).elim

theorem lowerItems_meaning : ∀ (items : List Form) {whole : Symbol} {span : Option Span}
    {index : Nat} {n m : NameSupply} {flat : List (Symbol × Form)}, n.Spares whole.name →
    Clear n (itemTargets index items) →
    (∀ target ∈ itemTargets index items, target.name ≠ whole.name) →
    Gives (lowerItems core whole span index items) n flat m →
    ∀ {env : Name → V}, n.Agree (reading.run core flat env)
      (reading.assign (env whole.name) (itemTargets index items) env)
  | [], _, _, _, _, _, _, _, _, _, run, _ => by
    obtain ⟨rfl, _⟩ := gives_pure.mp run
    exact fun _ _ => rfl
  | item :: rest, whole, span, index, n, m, flat, taken, clear, apart, run, env => by
    unfold lowerItems at run
    unfold itemTargets at clear apart ⊢
    split at run
    next mark =>
      rw [if_pos mark] at clear apart ⊢
      exact lowerRest_meaning rest clear run
    next noMark =>
      rw [if_neg noMark] at clear apart ⊢
      obtain ⟨apartHere, apartThere⟩ := List.forall_mem_append.mp apart
      simp only [gives_bind, gives_pure] at run
      obtain ⟨here, middle, first, there, _, later, rfl, _⟩ := run
      have drawn := (temps_lowering.unlessIgnored (temps_lowering.lower item _)).count_le first
      refine parts_meaning drawn taken apartHere rfl ?_ fun held => ?_
      · exact part_meaning (lower_meaning item) clear.left first
      · rw [← held]
        exact lowerItems_meaning rest (taken.later drawn) (clear.right.later drawn) apartThere later

theorem lowerRest_meaning : ∀ (items : List Form) {whole : Symbol} {span : Option Span}
    {index : Nat} {n m : NameSupply} {flat : List (Symbol × Form)},
    Clear n (restTargets index items) →
    Gives (lowerRest core whole span index items) n flat m →
    ∀ {env : Name → V}, n.Agree (reading.run core flat env)
      (reading.assign (env whole.name) (restTargets index items) env)
  | [], _, _, _, _, _, _, _, run, _ => by
    obtain ⟨rfl, _⟩ := gives_pure.mp run
    exact fun _ _ => rfl
  | [pattern], whole, span, index, n, _, _, clear, run, _ =>
    have part : Clear n (Target.under (.remainder index) pattern (targets pattern)) := clear
    part_meaning (lower_meaning pattern) part run
  | _ :: _ :: _, _, _, _, _, _, _, _, run, _ => (not_gives_throw run).elim

theorem lowerEntries_meaning : ∀ (entries : List (Form × Form)) {whole : Symbol}
    {span : Option Span} {n m : NameSupply} {flat : List (Symbol × Form)}, n.Spares whole.name →
    Clear n (entryTargets entries) →
    (∀ target ∈ entryTargets entries, target.name ≠ whole.name) →
    Gives (lowerEntries core whole span entries) n flat m →
    ∀ {env : Name → V}, n.Agree (reading.run core flat env)
      (reading.assign (env whole.name) (entryTargets entries) env)
  | [], _, _, _, _, _, _, _, _, run, _ => by
    obtain ⟨rfl, _⟩ := gives_pure.mp run
    exact fun _ _ => rfl
  | (key, pattern) :: rest, whole, span, n, m, flat, taken, clear, apart, run, env => by
    unfold lowerEntries at run
    unfold entryTargets at clear apart ⊢
    obtain ⟨apartHere, apartThere⟩ := List.forall_mem_append.mp apart
    simp only [gives_bind, gives_pure] at run
    obtain ⟨here, middle, first, there, _, later, rfl, _⟩ := run
    have drawn := (temps_lowering.unlessIgnored (temps_lowering.lower pattern _)).count_le first
    refine parts_meaning drawn taken apartHere rfl ?_ fun held => ?_
    · exact part_meaning (lower_meaning pattern) clear.left first
    · rw [← held]
      exact lowerEntries_meaning rest (taken.later drawn) (clear.right.later drawn) apartThere later
end

/-- The names and values of the pairs are none of the supply's, and keys are constant. -/
structure PairsClear (supply : NameSupply) (pairs : List (Form × Form)) : Prop where
  patterns : ∀ pair ∈ pairs, Clear supply (targets pair.1)
  values : ∀ pair ∈ pairs, ∀ name, pair.2.mentions name.only = true → supply.Spares name

variable {pairs first second : List (Form × Form)} {other : Name → V}

theorem PairsClear.later (clear : PairsClear n pairs) (later : n.count ≤ m.count) :
    PairsClear m pairs where
  patterns pair member := (clear.patterns pair member).later later
  values pair member name mentioned := (clear.values pair member name mentioned).later later

theorem PairsClear.mono (inside : first ⊆ second) (clear : PairsClear n second) :
    PairsClear n first where
  patterns pair member := clear.patterns pair (inside member)
  values pair member := clear.values pair (inside member)

theorem agree_bindAll (clear : PairsClear n pairs) (same : n.Agree env other) :
    n.Agree (reading.bindAll core pairs env) (reading.bindAll core pairs other) := by
  induction pairs generalizing env other with
  | nil => exact same
  | cons pair rest ih =>
    have value : reading.eval core env pair.2 = reading.eval core other pair.2 :=
      eval_agree same (clear.values pair List.mem_cons_self)
    unfold bindAll
    rw [value]
    exact ih (clear.mono (List.subset_cons_self _ _)) (agree_assign same)

/-- Lowered bindings, evaluated one after the other, bind the patterns from left to right. -/
theorem lowerPairs_meaning (clear : PairsClear n pairs)
    (run : Gives (lowerPairs core pairs) n flat m) :
    n.Agree (reading.run core flat env) (reading.bindAll core pairs env) := by
  induction pairs generalizing n flat env with
  | nil =>
    obtain ⟨rfl, _⟩ := gives_pure.mp run
    exact fun _ _ => rfl
  | cons pair rest ih =>
    simp only [lowerPairs, gives_bind, gives_pure] at run
    obtain ⟨here, middle, first, there, _, later, rfl, rfl⟩ := run
    have drawn := (temps_lowering.lower pair.1 pair.2).count_le first
    have restClear : PairsClear n rest := clear.mono (List.subset_cons_self _ _)
    have here : n.Agree (reading.run core here env)
        (reading.assign (reading.eval core env pair.2) (targets pair.1) env) :=
      lower_meaning pair.1 (clear.patterns pair List.mem_cons_self) first
    intro name spared
    rw [run_append, ih (restClear.later drawn) later name (spared.later drawn)]
    exact agree_bindAll restClear here name spared

end Pattern

/-- Evaluating what lowering makes of pairs gives every name the value that it has when the
patterns are bound directly, by position, rest and key and from left to right. Names that
the supply hands out are left aside, and must not stand in the pairs. -/
theorem lowering_binds_directly {V : Type u} (reading : Reading V) {core : String}
    {pairs : List (Form × Form)} {n m : NameSupply} {flat : List (Symbol × Form)}
    (clear : Pattern.PairsClear n pairs) (run : Gives (Pattern.lowerPairs core pairs) n flat m)
    (env : Name → V) {name : Name} (spared : n.Spares name) :
    reading.run core flat env name = reading.bindAll core pairs env name :=
  Pattern.lowerPairs_meaning clear run name spared

/-- Numbers as values, where the digits of a part say how it was taken. -/
def Reading.digits : Reading Nat where
  get whole key := 10 * whole + key
  drop count whole := 100 * whole + count
  other
    | .int number, _ => number.toNat
    | _, _ => 9

/-- `[a _ & [b a]]`, where the second `a` replaces the first. -/
def Pattern.repeatedName : Form :=
  .vector [.plainSymbol "a", .plainSymbol "_", .plainSymbol "&",
    .vector [.plainSymbol "b", .plainSymbol "a"] none []] none []

/-- `[a _ & [b a]] v {:k c} a n c` -/
def Pattern.repeatedPairs : List (Form × Form) :=
  [(repeatedName, .plainSymbol "v"),
    (.map [(.plainKeyword "k", .plainSymbol "c")] none [], .plainSymbol "a"),
    (.plainSymbol "n", .plainSymbol "c")]

theorem Pattern.repeatedPairs_clear {supply : NameSupply} : PairsClear supply repeatedPairs := by
  have spared (base : String) (head : base.toList.head? ≠ some '_') :
      supply.Spares (.plain base) := NameSupply.spares_of_head head
  have names (base : String) (head : base.toList.head? ≠ some '_') (name : Name)
      (found : (Form.plainSymbol base).mentions name.only = true) : supply.Spares name := by
    obtain rfl : Name.plain base = name := by
      simpa [Form.mentions, Form.mentionsEntries, Form.plainSymbol, Name.only] using found
    exact spared base head
  have vector : targets repeatedName =
      [{ name := .plain "a", path := [.element (.int 0)] },
        { name := .plain "b", path := [.remainder 2, .element (.int 0)] },
        { name := .plain "a", path := [.remainder 2, .element (.int 1)] }] := rfl
  have map : targets (.map [(.plainKeyword "k", .plainSymbol "c")] none []) =
      [{ name := .plain "c", path := [.element (.plainKeyword "k")] }] := rfl
  have symbol : targets (.plainSymbol "n") = [{ name := .plain "n", path := [] }] := rfl
  have constant : (∀ index : Int, (Form.int index).IsConstant) ∧
      (Form.plainKeyword "k").IsConstant := ⟨fun _ _ => rfl, fun _ => rfl⟩
  constructor
  · simp only [repeatedPairs, List.forall_mem_cons, vector, map, symbol]
    refine ⟨⟨?_, ?_⟩, ⟨?_, ?_⟩, ⟨?_, ?_⟩, List.forall_mem_nil _⟩
    · simp [spared "a" (by decide), spared "b" (by decide)]
    · simp [Step.IsConstant, constant]
    · simp [spared "c" (by decide)]
    · simp [Step.IsConstant, constant]
    · simp [spared "n" (by decide)]
    · simp
  · simp only [repeatedPairs, List.forall_mem_cons]
    exact ⟨names "v" (by decide), names "a" (by decide), names "c" (by decide),
      List.forall_mem_nil _⟩

theorem lowering_binds_directly_repeated : ∃ flat m,
    Gives (Pattern.lowerPairs "core" Pattern.repeatedPairs) {} flat m ∧
    Reading.digits.run "core" flat (fun _ => 3) (.plain "a") = 3021 ∧
    Reading.digits.run "core" flat (fun _ => 3) (.plain "n") = 30219 := by
  refine ⟨_, _, rfl, ?_, ?_⟩
  · rw [lowering_binds_directly _ Pattern.repeatedPairs_clear rfl _
      (NameSupply.spares_of_head (by decide))]
    rfl
  · rw [lowering_binds_directly _ Pattern.repeatedPairs_clear rfl _
      (NameSupply.spares_of_head (by decide))]
    rfl

end LispFront
