import LispFront.Proofs.Draws

/-! Whether lowering succeeds, and the error it ends with, can be read off the pattern
(`Pattern.refusal`): it depends neither on the value nor on the supply. -/

namespace LispFront

def Accepts {α : Type} (draw : NameM α) (n : NameSupply) : Prop := ∃ a m, Gives draw n a m

/-- Fails with this message. -/
def Rejects {α : Type} (draw : NameM α) (n : NameSupply) (message : String) : Prop :=
  ∃ error m, Fails draw n error m ∧ error.message = message

/-- Whatever the supply, the draw succeeds, or it ends with the error that is given. -/
structure Judged {α : Type} (verdict : Option AnalysisError) (draw : NameM α) : Prop where
  gives : verdict = none → ∀ n, ∃ a m, Gives draw n a m
  fails : ∀ error, verdict = some error → ∀ n, ∃ m, Fails draw n error m

namespace Judged

variable {α β : Type} {verdict later : Option AnalysisError}

theorem pure {a : α} : Judged none (Pure.pure a : NameM α) where
  gives _ n := ⟨a, n, rfl⟩
  fails _ refused := by contradiction

theorem throw {error : AnalysisError} : Judged (some error) (throw error : NameM α) where
  gives accepted := by contradiction
  fails other same n := by
    obtain rfl := Option.some.inj same
    exact ⟨n, rfl⟩

theorem drawTemp {span : Option Span} : Judged none (NameSupply.drawTemp span) where
  gives _ n := ⟨_, _, NameSupply.gives_drawTemp.mpr ⟨rfl, rfl⟩⟩
  fails _ refused := by contradiction

theorem bind {draw : NameM α} {f : α → NameM β} (first : Judged verdict draw)
    (rest : ∀ a, Judged later (f a)) : Judged (verdict.or later) (draw >>= f) := by
  cases verdict with
  | some error =>
    constructor
    · intro accepted
      contradiction
    · intro other same n
      obtain ⟨m, failed⟩ := first.fails other same n
      exact ⟨m, fails_bind.mpr (.inl failed)⟩
  | none =>
    constructor
    · intro accepted n
      obtain ⟨a, m, gave⟩ := first.gives rfl n
      obtain ⟨b, k, gave'⟩ := (rest a).gives accepted m
      exact ⟨b, k, gives_bind.mpr ⟨a, m, gave, gave'⟩⟩
    · intro error refused n
      obtain ⟨a, m, gave⟩ := first.gives rfl n
      obtain ⟨k, failed⟩ := (rest a).fails error refused m
      exact ⟨k, fails_bind.mpr (.inr ⟨a, m, gave, failed⟩)⟩

/-- What succeeds from one supply is accepted. -/
theorem accepted {draw : NameM α} {n m : NameSupply} {a : α} (judged : Judged verdict draw)
    (run : Gives draw n a m) : verdict = none := by
  cases verdict with
  | none => rfl
  | some error =>
    obtain ⟨k, failed⟩ := judged.fails error rfl n
    injection run.symm.trans failed with impossible
    contradiction

theorem accepts_iff {draw : NameM α} {n : NameSupply} (judged : Judged verdict draw) :
    Accepts draw n ↔ verdict = none := by
  constructor
  · rintro ⟨a, m, run⟩
    exact judged.accepted run
  · intro accepted
    exact judged.gives accepted n

theorem rejects {draw : NameM α} {error : AnalysisError} (judged : Judged (some error) draw)
    (n : NameSupply) : Rejects draw n error.message := by
  obtain ⟨m, failed⟩ := judged.fails error rfl n
  exact ⟨error, m, failed, rfl⟩

end Judged

namespace Pattern

mutual
/-- The error that lowering the pattern ends with, if it does not succeed. -/
def refusal : Form → Option AnalysisError
  | .symbol name span _ =>
    if name.isQualified then some { fault := .notDestructurable "symbol", span } else none
  | .vector items span _ => itemsRefusal span items
  | .map entries _ _ => entriesRefusal entries
  | pattern => some (.atForm (.notDestructurable pattern.kindName) pattern)

def itemsRefusal (span : Option Span) : List Form → Option AnalysisError
  | [] => none
  | item :: rest =>
    if item.isNamed restMark then restRefusal span rest
    else (refusal item).or (itemsRefusal span rest)

def restRefusal (span : Option Span) : List Form → Option AnalysisError
  | [] => none
  | [pattern] => refusal pattern
  | _ :: _ :: _ => some { fault := .crowdedRest, span }

def entriesRefusal : List (Form × Form) → Option AnalysisError
  | [] => none
  | (_, pattern) :: rest => (refusal pattern).or (entriesRefusal rest)
end

variable {core : String}

/-- An ignored place is a plain symbol, which is accepted in any case. -/
theorem refusal_of_isNamed {pattern : Form} {base : String} (named : pattern.isNamed base = true) :
    refusal pattern = none := by
  cases pattern with
  | symbol name span metadata =>
    obtain rfl : name = .plain base := by simpa [Form.isNamed] using named
    rfl
  | _ => contradiction

theorem judged_unlessIgnored {pattern : Form} {bindings : NameM (List (Symbol × Form))}
    (judged : Judged (refusal pattern) bindings) :
    Judged (refusal pattern) (unlessIgnored pattern bindings) := by
  unfold unlessIgnored
  split
  next ignored =>
    rw [refusal_of_isNamed ignored]
    exact .pure
  · exact judged

/-- Two lowerings one after the other. -/
theorem judged_append {first second : Option AnalysisError}
    {here there : NameM (List (Symbol × Form))} (left : Judged first here)
    (right : Judged second there) : Judged (first.or second) (do
      let here ← here
      let there ← there
      pure (here ++ there)) := by
  have whole := left.bind fun here => right.bind fun there =>
    Judged.pure (a := here ++ there)
  rwa [Option.or_none] at whole

/-- A name for the whole value, and then its parts. -/
theorem judged_whole {verdict : Option AnalysisError} {value : Form} {span : Option Span}
    {parts : Symbol → NameM (List (Symbol × Form))}
    (judged : ∀ whole, Judged verdict (parts whole)) : Judged verdict (do
      let whole ← NameSupply.drawTemp span
      let parts ← parts whole
      pure ((whole, value) :: parts)) := by
  have parts (whole : Symbol) := (judged whole).bind fun parts =>
    Judged.pure (a := (whole, value) :: parts)
  rw [Option.or_none] at parts
  exact Judged.drawTemp.bind parts

mutual
theorem judged_lower : ∀ pattern value : Form, Judged (refusal pattern) (lower core pattern value)
  | .symbol name span metadata, value => by
    unfold refusal lower
    split
    · exact .throw
    · exact .pure
  | .vector items span metadata, value => by
    unfold refusal lower
    exact judged_whole fun whole => judged_lowerItems items whole span 0
  | .map entries span metadata, value => by
    unfold refusal lower
    exact judged_whole fun whole => judged_lowerEntries entries whole span
  | .nil, _ => .throw
  | .bool _, _ => .throw
  | .int _, _ => .throw
  | .float _, _ => .throw
  | .str _, _ => .throw
  | .keyword _, _ => .throw
  | .list .., _ => .throw

theorem judged_lowerItems : ∀ (items : List Form) (whole : Symbol) (span : Option Span)
    (index : Nat), Judged (itemsRefusal span items) (lowerItems core whole span index items)
  | [], _, _, _ => .pure
  | item :: rest, whole, span, index => by
    unfold itemsRefusal lowerItems
    split
    · exact judged_lowerRest rest whole span index
    · exact judged_append (judged_unlessIgnored (judged_lower item _))
        (judged_lowerItems rest whole span (index + 1))

theorem judged_lowerRest : ∀ (items : List Form) (whole : Symbol) (span : Option Span)
    (index : Nat), Judged (restRefusal span items) (lowerRest core whole span index items)
  | [], _, _, _ => .pure
  | [pattern], _, _, _ => judged_unlessIgnored (judged_lower pattern _)
  | _ :: _ :: _, _, _, _ => .throw

theorem judged_lowerEntries : ∀ (entries : List (Form × Form)) (whole : Symbol)
    (span : Option Span), Judged (entriesRefusal entries) (lowerEntries core whole span entries)
  | [], _, _ => .pure
  | (key, pattern) :: rest, whole, span => by
    unfold entriesRefusal lowerEntries
    exact judged_append (judged_unlessIgnored (judged_lower pattern _))
      (judged_lowerEntries rest whole span)
end

theorem judged_lowerPairs (pairs : List (Form × Form)) :
    Judged (pairs.findSome? fun pair => refusal pair.1) (lowerPairs core pairs) := by
  induction pairs with
  | nil => exact .pure
  | cons pair rest ih =>
    have whole : Judged ((refusal pair.1).or (rest.findSome? fun pair => refusal pair.1))
        (lowerPairs core (pair :: rest)) := judged_append (judged_lower pair.1 pair.2) ih
    rw [List.findSome?_cons]
    cases own : refusal pair.1 with
    | none => rwa [own] at whole
    | some error => rwa [own] at whole

/-- Pairs are lowered from any supply or from none. -/
theorem exists_gives_lowerPairs {pairs : List (Form × Form)} {n : NameSupply} :
    (∃ flat m, Gives (lowerPairs core pairs) n flat m) ↔ ∀ pair ∈ pairs, refusal pair.1 = none := by
  rw [← List.findSome?_eq_none_iff]
  exact (judged_lowerPairs pairs).accepts_iff

end Pattern

end LispFront
