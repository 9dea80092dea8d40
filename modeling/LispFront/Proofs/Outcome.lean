import LispFront.Analysis.State

/-! A step gives a result and a state, or fails and leaves a state. `Gives` speaks of the first case
and `Fails` of the second. Their equations take a rule apart bind by bind, so that nothing about the
monad is unfolded outside this file. -/

namespace LispFront

variable {α β : Type} {s t u : State}

def State.opened (state : State) : State := { state with frames := state.frames ++ [false] }

def State.restarted (frame : Frame) (state : State) : State :=
  { state with frames := state.frames.set frame.id true }

section Reading

variable {x : Except AnalysisError α} {error : AnalysisError} {b : β}

theorem bind_eq_ok {f : α → Except AnalysisError β} :
    x >>= f = .ok b ↔ ∃ a, x = .ok a ∧ f a = .ok b := by
  cases x with
  | error _ => simp [bind, Except.bind]
  | ok _ => simp [bind, Except.bind]

theorem map_eq_ok {f : α → β} : x.map f = .ok b ↔ ∃ a, x = .ok a ∧ f a = b := by
  cases x with
  | error _ => simp [Except.map]
  | ok _ => simp [Except.map]

theorem map_eq_error {f : α → β} : x.map f = .error error ↔ x = .error error := by
  cases x with
  | error _ => simp [Except.map]
  | ok _ => simp [Except.map]

end Reading

section Monad

variable {σ : Type} {i j k : σ}

theorem bind_of_ok {x : ExceptT AnalysisError (StateM σ) α}
    {f : α → ExceptT AnalysisError (StateM σ) β} {a : α} (run : x i = (.ok a, j)) :
    (x >>= f) i = f a j := by
  change (ExceptT.bindCont f (x i).1 : StateM σ _) (x i).2 = f a j
  rw [run]
  rfl

theorem bind_of_error {x : ExceptT AnalysisError (StateM σ) α}
    {f : α → ExceptT AnalysisError (StateM σ) β} {error : AnalysisError}
    (run : x i = (.error error, j)) : (x >>= f) i = (.error error, j) := by
  change (ExceptT.bindCont f (x i).1 : StateM σ _) (x i).2 = (.error error, j)
  rw [run]
  rfl

/-- From `i` the step succeeds with `a` and leaves `j`. -/
def Gives (step : ExceptT AnalysisError (StateM σ) α) (i : σ) (a : α) (j : σ) : Prop :=
  step i = (.ok a, j)

theorem Gives.unique {step : ExceptT AnalysisError (StateM σ) α} {a b : α}
    (first : Gives step i a j) (second : Gives step i b k) : a = b ∧ j = k := by
  obtain ⟨results, states⟩ := Prod.mk.inj (first.symm.trans second)
  exact ⟨Except.ok.inj results, states⟩

theorem exists_gives_of_isOk {step : ExceptT AnalysisError (StateM σ) α}
    (ok : (step i).1.isOk = true) : ∃ a j, Gives step i a j := by
  rcases run : step i with ⟨_ | a, j⟩
  · rw [run] at ok
    contradiction
  · exact ⟨a, j, run⟩

theorem gives_bind {x : ExceptT AnalysisError (StateM σ) α}
    {f : α → ExceptT AnalysisError (StateM σ) β} {b : β} :
    Gives (x >>= f) i b k ↔ ∃ a j, Gives x i a j ∧ Gives (f a) j b k := by
  constructor
  · intro run
    match first : x i with
    | (.ok a, j) => exact ⟨a, j, first, (bind_of_ok first).symm.trans run⟩
    | (.error error, j) =>
      have failed := (bind_of_error (f := f) first).symm.trans run
      injection failed with impossible
      contradiction
  · rintro ⟨a, j, first, rest⟩
    exact (bind_of_ok first).trans rest

theorem gives_pure {a b : α} :
    Gives (pure a : ExceptT AnalysisError (StateM σ) α) i b j ↔ a = b ∧ i = j := by
  change ((Except.ok a, i) : Except AnalysisError α × σ) = (.ok b, j) ↔ _
  simp

theorem not_gives_throw {error : AnalysisError} {a : α} :
    ¬ Gives (throw error : ExceptT AnalysisError (StateM σ) α) i a j := by
  change ¬ ((Except.error error, i) : Except AnalysisError α × σ) = (.ok a, j)
  simp

/-- From `i` the step fails and leaves `j`. -/
def Fails (step : ExceptT AnalysisError (StateM σ) α) (i : σ) (error : AnalysisError) (j : σ) :
    Prop := step i = (.error error, j)

variable {error : AnalysisError}

theorem fails_bind {x : ExceptT AnalysisError (StateM σ) α}
    {f : α → ExceptT AnalysisError (StateM σ) β} :
    Fails (x >>= f) i error k ↔
      Fails x i error k ∨ ∃ a j, Gives x i a j ∧ Fails (f a) j error k := by
  constructor
  · intro run
    match first : x i with
    | (.ok a, j) => exact .inr ⟨a, j, first, (bind_of_ok first).symm.trans run⟩
    | (.error _, j) =>
      have failed := (bind_of_error (f := f) first).symm.trans run
      injection failed with same last
      injection same with same
      exact .inl (by rw [Fails, first, same, last])
  · rintro (failed | ⟨a, j, first, rest⟩)
    · exact bind_of_error failed
    · exact (bind_of_ok first).trans rest

theorem not_fails_pure {a : α} :
    ¬ Fails (pure a : ExceptT AnalysisError (StateM σ) α) i error j := by
  change ¬ ((Except.ok a, i) : Except AnalysisError α × σ) = (.error error, j)
  simp

end Monad

theorem gives_draw {draw : Draw} {symbol : Symbol} {n m : NameSupply} :
    Gives (NameSupply.draw draw) n symbol m ↔
      NameSupply.numbered draw.stem (n.count + 1) = symbol ∧ (n.issue draw).2 = m := by
  change ((Except.ok (n.issue draw).1, (n.issue draw).2) :
    Except AnalysisError Symbol × NameSupply) = (.ok symbol, m) ↔ _
  simp [NameSupply.issue]

theorem not_gives_fail {fault : Fault} {span : Option Span} {a : α} :
    ¬ Gives (AnalyzeM.fail fault span) s a t := not_gives_throw

theorem not_gives_failAt {fault : Fault} {form : Form} {a : α} :
    ¬ Gives (AnalyzeM.failAt fault form) s a t := not_gives_throw

theorem gives_ofExcept {result : Except AnalysisError α} {a : α} :
    Gives (AnalyzeM.ofExcept result) s a t ↔ result = .ok a ∧ s = t := by
  change (result, s) = (Except.ok a, t) ↔ _
  simp

theorem gives_ofNames {draw : NameM α} {a : α} :
    Gives (AnalyzeM.ofNames draw) s a t ↔
      ∃ names, Gives draw s.names a names ∧ { s with names } = t := by
  change ((draw s.names).1, { s with names := (draw s.names).2 }) = (Except.ok a, t) ↔ _
  constructor
  · intro run
    injection run with result state
    exact ⟨(draw s.names).2, Prod.ext result rfl, state⟩
  · rintro ⟨names, drawn, rfl⟩
    have drawn : draw s.names = (.ok a, names) := drawn
    rw [drawn]

theorem gives_registry {registry : Registry} :
    Gives AnalyzeM.registry s registry t ↔ s.registry = registry ∧ s = t := by
  change ((Except.ok s.registry, s) : Except AnalysisError Registry × State) = (.ok registry, t) ↔ _
  simp

theorem gives_changeRegistry {change : Registry → Registry} {done : Unit} :
    Gives (AnalyzeM.changeRegistry change) s done t ↔
      { s with registry := change s.registry } = t := by
  change ((Except.ok (), { s with registry := change s.registry }) :
    Except AnalysisError Unit × State) = (.ok done, t) ↔ _
  simp

theorem gives_newFrame {params : List Symbol} {frame : Frame} :
    Gives (AnalyzeM.newFrame params) s frame t ↔
      { id := s.frames.length, params } = frame ∧ s.opened = t := by
  change ((Except.ok { id := s.frames.length, params }, s.opened) :
    Except AnalysisError Frame × State) = (.ok frame, t) ↔ _
  simp

theorem gives_activate {frame : Frame} {done : Unit} :
    Gives (AnalyzeM.activate frame) s done t ↔ s.restarted frame = t := by
  change ((Except.ok (), s.restarted frame) : Except AnalysisError Unit × State) =
    (.ok done, t) ↔ _
  simp

/-- Undoing plays no part in success. -/
theorem gives_onFailure {undo : Registry → Registry} {step : AnalyzeM α} {a : α} :
    Gives (AnalyzeM.onFailure undo step) s a t ↔ Gives step s a t := by
  unfold Gives AnalyzeM.onFailure
  match step s with
  | (.ok _, _) => rfl
  | (.error _, _) =>
    constructor
    · intro run
      injection run with impossible
      contradiction
    · intro run
      injection run with impossible
      contradiction

theorem AnalyzeM.onFailure_of_error {undo : Registry → Registry} {step : AnalyzeM α}
    {error : AnalysisError} (run : step s = (.error error, t)) :
    AnalyzeM.onFailure undo step s =
      (.error error, { t with registry := undo t.registry }) := by
  unfold AnalyzeM.onFailure
  rw [run]

theorem gives_define {name : Symbol} {metadata : Entries} {previous : Option Definition} :
    Gives (AnalyzeM.define name metadata) s previous t ↔
      ∃ registry, s.registry.addDefinition s.registry.current name.base metadata =
        .ok (previous, registry) ∧ { s with registry } = t := by
  unfold AnalyzeM.define
  simp only [gives_bind, gives_registry]
  constructor
  · rintro ⟨registry, middle, ⟨rfl, rfl⟩, run⟩
    match added : s.registry.addDefinition s.registry.current name.base metadata with
    | .ok (before, after) =>
      simp only [added, gives_bind, gives_changeRegistry, gives_pure] at run
      obtain ⟨_, _, rfl, rfl, rfl⟩ := run
      exact ⟨after, rfl, rfl⟩
    | .error fault =>
      simp only [added] at run
      exact (not_gives_throw run).elim
  · rintro ⟨registry, added, rfl⟩
    refine ⟨s.registry, s, ⟨rfl, rfl⟩, ?_⟩
    simp only [added, gives_bind, gives_changeRegistry, gives_pure]
    exact ⟨(), _, rfl, trivial, rfl⟩

section Failure

variable {error : AnalysisError}

theorem fails_fail {fault : Fault} {span : Option Span} :
    Fails (AnalyzeM.fail fault span : AnalyzeM α) s error t ↔
      ({ fault, span } : AnalysisError) = error ∧ s = t := by
  change ((Except.error { fault, span }, s) : Except AnalysisError α × State) =
    (.error error, t) ↔ _
  simp

theorem fails_ofExcept {result : Except AnalysisError α} :
    Fails (AnalyzeM.ofExcept result) s error t ↔ result = .error error ∧ s = t := by
  change (result, s) = (Except.error error, t) ↔ _
  simp

theorem not_fails_registry : ¬ Fails AnalyzeM.registry s error t := by
  change ¬ ((Except.ok s.registry, s) : Except AnalysisError Registry × State) = (.error error, t)
  simp

theorem not_fails_changeRegistry {change : Registry → Registry} :
    ¬ Fails (AnalyzeM.changeRegistry change) s error t := by
  change ¬ ((Except.ok (), { s with registry := change s.registry }) :
    Except AnalysisError Unit × State) = (.error error, t)
  simp

theorem fails_onFailure {undo : Registry → Registry} {step : AnalyzeM α} :
    Fails (AnalyzeM.onFailure undo step) s error t ↔
      ∃ u, Fails step s error u ∧ { u with registry := undo u.registry } = t := by
  unfold Fails AnalyzeM.onFailure
  match step s with
  | (.ok _, _) =>
    constructor
    · intro run
      injection run with impossible
      contradiction
    · rintro ⟨_, run, _⟩
      injection run with impossible
      contradiction
  | (.error _, u) =>
    constructor
    · intro run
      obtain ⟨same, rfl⟩ := Prod.mk.inj run
      exact ⟨u, by rw [same], rfl⟩
    · rintro ⟨_, same, rfl⟩
      rw [same]

/-- A definition is refused by the registry, is reported at its name, and changes nothing. -/
theorem fails_define {name : Symbol} {metadata : Entries} :
    Fails (AnalyzeM.define name metadata) s error t ↔
      ∃ fault, s.registry.addDefinition s.registry.current name.base metadata = .error fault ∧
        { fault, span := name.span, cause := some fault.message } = error ∧ s = t := by
  unfold AnalyzeM.define
  simp only [fails_bind, not_fails_registry, gives_registry, false_or]
  constructor
  · rintro ⟨_, _, ⟨rfl, rfl⟩, run⟩
    split at run
    · simp only [fails_bind, not_fails_changeRegistry, not_fails_pure, and_false, exists_false,
        or_self] at run
    next fault refused =>
      obtain ⟨same, rfl⟩ := Prod.mk.inj run
      exact ⟨fault, refused, Except.error.inj same, rfl⟩
  · rintro ⟨fault, refused, rfl, rfl⟩
    refine ⟨s.registry, s, ⟨rfl, rfl⟩, ?_⟩
    simp only [refused]
    rfl

theorem state_of_fails_define {name : Symbol} {metadata : Entries}
    (run : Fails (AnalyzeM.define name metadata) s error t) : s = t := by
  obtain ⟨_, _, _, same⟩ := fails_define.mp run
  exact same

end Failure

end LispFront
