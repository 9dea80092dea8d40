import LispFront.Proofs.Locality
import LispFront.Proofs.Rounds
import LispFront.Proofs.SubForms

/-! Rules visit the parts of a form and what lowering makes of them. `Arises` says of each form that
may be visited how its spans trace back to the form at the root. A fresh name for a scalar has no
span, but is refused before it is looked up. -/

namespace LispFront

namespace Form

variable {root : Form} {core : String}

/-- A pattern to bind: one that is written, or a generated plain symbol. -/
def Binds (root pattern : Form) : Prop :=
  pattern.Inside root ∨
    ∃ symbol : Symbol, symbol.Plain ∧ root.Allows symbol.span ∧ pattern = symbol.form

/-- The form may be visited when the root is analyzed. -/
inductive Arises (root : Form) (core : String) : Form → Prop where
  | inside {form : Form} (inside : form.Inside root) : Arises root core form
  | scalar {form : Form} (isScalar : form.isScalar = true) : Arises root core form
  | name {symbol : Symbol} (marks : root.Marks symbol.span) : Arises root core symbol.form
  | accessor {base : String} {args : List Form} {span : Option Span}
      (isAccessor : base = "get" ∨ base = "drop") (marks : root.Marks span)
      (arise : ∀ arg ∈ args, Arises root core arg) :
      Arises root core (Pattern.accessor core base args span)
  | map {entries : Entries} {span : Option Span} (allows : root.Allows span)
      (keys : ∀ entry ∈ entries, Arises root core entry.1)
      (values : ∀ entry ∈ entries, Arises root core entry.2) :
      Arises root core (.map entries span [])
  /-- The values and the body are visited only if no pattern is a scalar. -/
  | letIn {pairs : List (Form × Form)} {body : List Form} {span : Option Span}
      (marks : root.Marks span) (patterns : ∀ pair ∈ pairs, root.Binds pair.1)
      (values : ∀ pair ∈ pairs, pair.1.isScalar = false → Arises root core pair.2)
      (rest : (∀ pair ∈ pairs, pair.1.isScalar = false) → ∀ form ∈ body, Arises root core form) :
      Arises root core (Pattern.letForm (Binder.flatten pairs) body span)
  | loop {pairs : List (Form × Form)} {body : List Form} {span : Option Span}
      (marks : root.Marks span)
      (names : ∀ pair ∈ pairs, ∃ symbol : Symbol,
        symbol.Plain ∧ root.Marks symbol.span ∧ pair = (symbol.form, symbol.form))
      (rest : ∀ form ∈ body, Arises root core form) :
      Arises root core (Pattern.loopForm (Binder.flatten pairs) body span)

/-- Pairs of patterns and values. A value may be visited unless its pattern is a scalar. -/
structure Pairs (root : Form) (core : String) (pairs : List (Form × Form)) : Prop where
  patterns : ∀ pair ∈ pairs, root.Binds pair.1
  values : ∀ pair ∈ pairs, pair.1.isScalar = false → root.Arises core pair.2

theorem Pairs.append {first second : List (Form × Form)} (one : root.Pairs core first)
    (other : root.Pairs core second) : root.Pairs core (first ++ second) where
  patterns := List.forall_mem_append.mpr ⟨one.patterns, other.patterns⟩
  values := List.forall_mem_append.mpr ⟨one.values, other.values⟩

theorem Pairs.of_inside {pairs : List (Form × Form)} (inside : Entries.All (Inside · root) pairs) :
    root.Pairs core pairs where
  patterns pair member := .inl (inside pair member).1
  values pair member _ := .inside (inside pair member).2

/-- Flat bindings that may be visited. -/
def Flat (root : Form) (core : String) (flat : List (Symbol × Form)) : Prop :=
  ∀ pair ∈ flat, root.Allows pair.1.span ∧ root.Arises core pair.2

theorem Flat.cons {symbol : Symbol} {value : Form} {flat : List (Symbol × Form)}
    (allows : root.Allows symbol.span) (arises : root.Arises core value)
    (rest : root.Flat core flat) : root.Flat core ((symbol, value) :: flat) :=
  List.forall_mem_cons.mpr ⟨⟨allows, arises⟩, rest⟩

theorem Flat.append {first second : List (Symbol × Form)} (one : root.Flat core first)
    (other : root.Flat core second) : root.Flat core (first ++ second) :=
  List.forall_mem_append.mpr ⟨one, other⟩

end Form

namespace Pattern

variable {root : Form} {core : String} {span : Option Span}

theorem ends_drawTemp {E : AnalysisError → Prop} :
    Ends E (fun symbol => symbol.span = span) (NameSupply.drawTemp span) := fun _ => rfl

theorem ends_unlessIgnored {pattern : Form} {bindings : NameM (List (Symbol × Form))}
    (ends : Ends root.Blames (root.Flat core) bindings) :
    Ends root.Blames (root.Flat core) (unlessIgnored pattern bindings) := by
  unfold unlessIgnored
  split
  · exact .pure (List.forall_mem_nil _)
  · exact ends

theorem arises_element {whole : Symbol} {key : Form} (marks : root.Marks span)
    (temp : whole.span = span) (arises : root.Arises core key) :
    root.Arises core (element core whole key span) := by
  refine .accessor (.inl rfl) marks ?_
  simpa using ⟨.name (temp ▸ marks), arises⟩

theorem arises_remainder {whole : Symbol} {index : Nat} (marks : root.Marks span)
    (temp : whole.span = span) : root.Arises core (remainder core whole index span) := by
  refine .accessor (.inr rfl) marks ?_
  simpa using ⟨.scalar rfl, .name (temp ▸ marks)⟩

mutual
/-- Taking a written pattern apart is refused at a place or at a scalar of the pattern. -/
theorem ends_lower : ∀ (pattern value : Form), pattern.Inside root →
    (pattern.isScalar = false → root.Arises core value) →
    Ends root.Blames (fun flat => pattern.isScalar = false ∧ root.Flat core flat)
      (lower core pattern value)
  | .symbol name span metadata, value, inside, arises => by
    unfold lower
    split
    · exact .throw (inside.marks rfl).blames
    · exact .pure ⟨rfl, .cons inside.allows (arises rfl) (List.forall_mem_nil _)⟩
  | .vector items span metadata, value, inside, arises => by
    unfold lower
    refine ends_drawTemp.bind fun whole temp => ?_
    refine (ends_lowerItems items (fun _ => inside.item_of_vector) (inside.marks rfl)
      temp).bind fun parts flat => ?_
    exact .pure ⟨rfl, .cons (temp ▸ inside.allows) (arises rfl) flat⟩
  | .map entries span metadata, value, inside, arises => by
    unfold lower
    refine ends_drawTemp.bind fun whole temp => ?_
    refine (ends_lowerEntries entries inside.entry_of_map (inside.marks rfl)
      temp).bind fun parts flat => ?_
    exact .pure ⟨rfl, .cons (temp ▸ inside.allows) (arises rfl) flat⟩
  | .nil, _, inside, _ => .throw (inside.blames fun _ => rfl)
  | .bool _, _, inside, _ => .throw (inside.blames fun _ => rfl)
  | .int _, _, inside, _ => .throw (inside.blames fun _ => rfl)
  | .float _, _, inside, _ => .throw (inside.blames fun _ => rfl)
  | .str _, _, inside, _ => .throw (inside.blames fun _ => rfl)
  | .keyword _, _, inside, _ => .throw (inside.blames fun _ => rfl)
  | .list .., _, inside, _ => .throw (inside.marks rfl).blames

theorem ends_lowerItems : ∀ (items : List Form) {whole : Symbol} {span : Option Span}
    {index : Nat}, (∀ item ∈ items, item.Inside root) → root.Marks span → whole.span = span →
    Ends root.Blames (root.Flat core) (lowerItems core whole span index items)
  | [], _, _, _, _, _, _ => .pure (List.forall_mem_nil _)
  | item :: rest, whole, span, index, inside, marks, temp => by
    obtain ⟨own, others⟩ := List.forall_mem_cons.mp inside
    unfold lowerItems
    split
    · exact ends_lowerRest rest others marks temp
    · have part := ends_lower item (element core whole (.int index) span) own fun _ =>
        arises_element marks temp (.scalar rfl)
      refine (ends_unlessIgnored (part.mono fun _ => And.right)).bind fun here flat => ?_
      refine (ends_lowerItems rest others marks temp).bind fun there more => ?_
      exact .pure (flat.append more)

theorem ends_lowerRest : ∀ (items : List Form) {whole : Symbol} {span : Option Span}
    {index : Nat}, (∀ item ∈ items, item.Inside root) → root.Marks span → whole.span = span →
    Ends root.Blames (root.Flat core) (lowerRest core whole span index items)
  | [], _, _, _, _, _, _ => .pure (List.forall_mem_nil _)
  | [pattern], whole, span, index, inside, marks, temp => by
    have part := ends_lower pattern (remainder core whole index span)
      (inside pattern List.mem_cons_self) fun _ => arises_remainder marks temp
    exact ends_unlessIgnored (part.mono fun _ => And.right)
  | _ :: _ :: _, _, _, _, _, marks, _ => .throw marks.blames

theorem ends_lowerEntries : ∀ (entries : List (Form × Form)) {whole : Symbol}
    {span : Option Span}, Entries.All (Form.Inside · root) entries → root.Marks span →
    whole.span = span →
    Ends root.Blames (root.Flat core) (lowerEntries core whole span entries)
  | [], _, _, _, _, _ => .pure (List.forall_mem_nil _)
  | (key, pattern) :: rest, whole, span, inside, marks, temp => by
    obtain ⟨own, others⟩ := List.forall_mem_cons.mp inside
    unfold lowerEntries
    have part := ends_lower pattern (element core whole key span) own.2 fun _ =>
      arises_element marks temp (.inside own.1)
    refine (ends_unlessIgnored (part.mono fun _ => And.right)).bind fun here flat => ?_
    refine (ends_lowerEntries rest others marks temp).bind fun there more => ?_
    exact .pure (flat.append more)
end

theorem lower_of_plain {symbol : Symbol} {value : Form} (plain : symbol.Plain) :
    lower core symbol.form value = pure [(symbol, value)] := by
  have plain : symbol.name.isQualified = false := Symbol.plain_iff.mp plain
  simp [Symbol.form, lower, plain]

theorem ends_lowerPairs {pairs : List (Form × Form)} (pairsArise : root.Pairs core pairs) :
    Ends root.Blames
      (fun flat => (∀ pair ∈ pairs, pair.1.isScalar = false) ∧ root.Flat core flat)
      (lowerPairs core pairs) := by
  obtain ⟨patterns, values⟩ := pairsArise
  induction pairs with
  | nil => exact .pure ⟨List.forall_mem_nil _, List.forall_mem_nil _⟩
  | cons pair rest ih =>
    obtain ⟨own, others⟩ := List.forall_mem_cons.mp patterns
    obtain ⟨value, later⟩ := List.forall_mem_cons.mp values
    have first : Ends root.Blames (fun flat => pair.1.isScalar = false ∧ root.Flat core flat)
        (lower core pair.1 pair.2) := by
      rcases own with inside | ⟨symbol, plain, allows, same⟩
      · exact ends_lower pair.1 pair.2 inside value
      · rw [same] at value ⊢
        rw [lower_of_plain plain]
        exact .pure ⟨rfl, .cons allows (value rfl) (List.forall_mem_nil _)⟩
    refine first.bind fun here flat => (ih others later).bind fun there more => ?_
    exact .pure ⟨List.forall_mem_cons.mpr ⟨flat.1, more.1⟩, flat.2.append more.2⟩

/-- Patterns that are to be bound in front of a body. -/
def Wraps (root : Form) (core : String) (bindings : List Form) : Prop :=
  ∃ pairs, bindings = Binder.flatten pairs ∧ root.Pairs core pairs

theorem Wraps.nil : Wraps root core [] :=
  ⟨[], rfl, List.forall_mem_nil _, List.forall_mem_nil _⟩

theorem Wraps.append {first second : List Form} (one : Wraps root core first)
    (other : Wraps root core second) : Wraps root core (first ++ second) := by
  obtain ⟨pairs, rfl, own⟩ := one
  obtain ⟨more, rfl, others⟩ := other
  exact ⟨pairs ++ more, (Binder.flatten_append pairs more).symm, own.append others⟩

/-- A fresh name is located like its pattern, so it arises if the pattern is no scalar. -/
theorem pairs_temp {pattern : Form} {temp : Symbol} (inside : pattern.Inside root)
    (located : temp.span = pattern.span) : root.Pairs core [(pattern, temp.form)] where
  patterns := List.forall_mem_singleton.mpr (.inl inside)
  values := by
    refine List.forall_mem_singleton.mpr fun composite => .name ?_
    rw [located]
    exact inside.marks composite

theorem ends_nameFor (core : String) {pattern : Form}
    (inside : pattern.Inside root) :
    Ends root.Blames (fun named => Wraps root core named.2) (nameFor pattern) := by
  unfold nameFor
  split
  · exact .pure .nil
  · refine ends_drawTemp.bind fun temp located => .pure ?_
    exact ⟨[(pattern, temp.form)], rfl, pairs_temp inside located⟩

theorem ends_nameForOption (core : String) {pattern : Option Form}
    (inside : ∀ form ∈ pattern, form.Inside root) :
    Ends root.Blames (fun named => Wraps root core named.2) (nameForOption pattern) := by
  cases pattern with
  | none => exact .pure .nil
  | some pattern =>
    refine (ends_nameFor core (inside pattern rfl)).bind fun named wraps => ?_
    exact .pure wraps

theorem arises_bindAround {bindings body : List Form} (marks : root.Marks span)
    (wraps : Wraps root core bindings) (inside : ∀ form ∈ body, form.Inside root) :
    ∀ form ∈ bindAround bindings body span, root.Arises core form := by
  obtain ⟨pairs, rfl, patterns, values⟩ := wraps
  unfold bindAround
  split
  · exact fun form member => .inside (inside form member)
  · refine List.forall_mem_singleton.mpr (.letIn marks patterns values ?_)
    exact fun _ form member => .inside (inside form member)

end Pattern

namespace Parameters

variable {root : Form} {items : List Form} {span : Option Span}

theorem ends_nameAll (core : String) (inside : ∀ item ∈ items, item.Inside root) :
    Ends root.Blames (fun named => Pattern.Wraps root core named.2) (nameAll items) := by
  induction items with
  | nil => exact .pure .nil
  | cons pattern rest ih =>
    obtain ⟨own, others⟩ := List.forall_mem_cons.mp inside
    refine (Pattern.ends_nameFor core own).bind fun named here => ?_
    exact (ih others).bind fun more there => .pure (here.append there)

theorem ends_nameRest (core : String) (inside : ∀ item ∈ items, item.Inside root) :
    Ends root.Blames (fun named => Pattern.Wraps root core named.2) (nameRest items span) := by
  have kept : ∀ item ∈ items.filter (fun item => !isMark item), item.Inside root :=
    fun item member => inside item (List.mem_filter.mp member).1
  unfold nameRest
  split
  · exact Pattern.ends_drawTemp.bind fun _ _ => .pure .nil
  next one =>
    rw [one] at kept
    exact Pattern.ends_nameFor core (kept _ List.mem_cons_self)
  next many =>
    rw [many] at kept
    simp only [List.forall_mem_cons] at kept
    refine (Pattern.ends_nameFor core kept.1).bind fun _ _ => ?_
    exact .throw (kept.2.1.blames fun _ => rfl)

theorem ends_lower (core : String) (inside : ∀ item ∈ items, item.Inside root) :
    Ends root.Blames (fun params => Pattern.Wraps root core params.bindings)
      (lower items span) := by
  have before : ∀ item ∈ items.takeWhile (fun item => !isMark item), item.Inside root :=
    fun item member => inside item ((List.takeWhile_sublist _).mem member)
  have from_mark : ∀ item ∈ items.dropWhile (fun item => !isMark item), item.Inside root :=
    fun item member => inside item ((List.dropWhile_sublist _).mem member)
  refine (ends_nameAll core before).bind fun named wraps => ?_
  obtain ⟨symbols, bindings⟩ := named
  dsimp only
  split
  · exact .pure wraps
  next mark behind found =>
    rw [found] at from_mark
    refine (ends_nameRest core (List.forall_mem_cons.mp from_mark).2).bind fun last more => ?_
    exact .pure (wraps.append more)

end Parameters

namespace Pattern

variable {root : Form} {core : String} {span : Option Span} {round : Round} {n : NameSupply}
variable {pairs : List (Form × Form)}

theorem pairs_outer (inside : round.pattern.Inside root ∧ round.init.Inside root)
    (member : round ∈ rounds n pairs) : root.Pairs core round.outer := by
  unfold Round.outer
  rcases temp_of_mem_rounds member with ⟨_, temp⟩ | ⟨_, index, _, temp⟩
  · rw [temp]
    exact .of_inside (List.forall_mem_singleton.mpr inside)
  · rw [temp]
    have first : root.Pairs core [((n.temp index round.pattern.span).form, round.init)] :=
      { patterns := List.forall_mem_singleton.mpr
          (.inr ⟨n.temp index round.pattern.span, rfl, inside.1.allows, rfl⟩)
        values := List.forall_mem_singleton.mpr fun _ => .inside inside.2 }
    exact first.append (pairs_temp inside.1 rfl)

theorem pairs_inner (inside : round.pattern.Inside root) (member : round ∈ rounds n pairs) :
    root.Pairs core round.inner := by
  unfold Round.inner
  rcases temp_of_mem_rounds member with ⟨_, temp⟩ | ⟨_, index, _, temp⟩
  · rw [temp]
    exact ⟨List.forall_mem_nil _, List.forall_mem_nil _⟩
  · rw [temp]
    exact pairs_temp inside rfl

/-- The loop in the middle binds plain symbols. Each is located if its pattern is no scalar. -/
theorem name_of_mem_rounds (inside : round.pattern.Inside root) (member : round ∈ rounds n pairs)
    (composite : round.pattern.isScalar = false) :
    ∃ symbol : Symbol, symbol.Plain ∧ root.Marks symbol.span ∧ round.name = symbol.form := by
  unfold Round.name
  rcases temp_of_mem_rounds member with ⟨simple, temp⟩ | ⟨_, index, _, temp⟩
  · rw [temp]
    obtain ⟨symbol, found⟩ := Option.isSome_iff_exists.mp simple
    have same := Form.plainSymbol?_eq_some found
    refine ⟨symbol, Form.plainSymbol?_plain found, ?_, same⟩
    exact (same ▸ inside : symbol.form.Inside root).marks_symbol
  · rw [temp]
    exact ⟨n.temp index round.pattern.span, rfl, inside.marks composite, rfl⟩

/-- The pattern of a round is bound in the first of the three vectors. -/
theorem mem_outer (round : Round) : ∃ value, (round.pattern, value) ∈ round.outer := by
  unfold Round.outer
  split
  · exact ⟨_, List.mem_cons_of_mem _ List.mem_cons_self⟩
  · exact ⟨_, List.mem_cons_self⟩

theorem arises_nest {body : List Form} (marks : root.Marks span)
    (inside : Entries.All (Form.Inside · root) pairs)
    (bodyInside : ∀ form ∈ body, form.Inside root) :
    root.Arises core (nest (rounds n pairs) body span) := by
  have written : ∀ round ∈ rounds n pairs,
      round.pattern.Inside root ∧ round.init.Inside root := by
    intro round member
    have listed := List.mem_map_of_mem (f := fun round => (round.pattern, round.init)) member
    rw [map_rounds] at listed
    exact inside _ listed
  have outer (pair : Form × Form) (member : pair ∈ (rounds n pairs).flatMap Round.outer) :
      ∃ round ∈ rounds n pairs, pair ∈ round.outer ∧ root.Pairs core round.outer := by
    obtain ⟨round, listed, own⟩ := List.mem_flatMap.mp member
    exact ⟨round, listed, own, pairs_outer (written round listed) listed⟩
  have inner (round : Round) (member : round ∈ rounds n pairs) : root.Pairs core round.inner :=
    pairs_inner (written round member).1 member
  refine .letIn marks (fun pair member => ?_) (fun pair member => ?_) fun composite => ?_
  · obtain ⟨round, _, own, arise⟩ := outer pair member
    exact arise.patterns pair own
  · obtain ⟨round, _, own, arise⟩ := outer pair member
    exact arise.values pair own
  · refine List.forall_mem_singleton.mpr (.loop marks (fun pair member => ?_) ?_)
    · obtain ⟨round, listed, rfl⟩ := List.mem_map.mp member
      obtain ⟨value, own⟩ := mem_outer round
      obtain ⟨symbol, plain, located, same⟩ := name_of_mem_rounds (written round listed).1 listed
        (composite _ (List.mem_flatMap.mpr ⟨round, listed, own⟩))
      exact ⟨symbol, plain, located, by rw [same]⟩
    · refine List.forall_mem_singleton.mpr (.letIn marks (fun pair member => ?_)
        (fun pair member => ?_) fun _ form member => .inside (bodyInside form member))
      · obtain ⟨round, listed, own⟩ := List.mem_flatMap.mp member
        exact (inner round listed).patterns pair own
      · obtain ⟨round, listed, own⟩ := List.mem_flatMap.mp member
        exact (inner round listed).values pair own

theorem ends_lowerLoop {body : List Form} (marks : root.Marks span)
    (inside : Entries.All (Form.Inside · root) pairs)
    (bodyInside : ∀ form ∈ body, form.Inside root) :
    Ends root.Blames (fun form => form.span = span ∧ root.Arises core form)
      (lowerLoop pairs body span) := by
  intro n
  have run := gives_lowerLoop pairs body span n
  rw [run]
  exact ⟨rfl, arises_nest marks inside bodyInside⟩

end Pattern

end LispFront
