import Mathlib.Data.List.Forall2
import Mathlib.Data.List.TakeWhile
import LispFront.Proofs.Construction
import LispFront.Proofs.CoreAccessors
import LispFront.Proofs.RestParameters
import LispFront.Proofs.Rounds

/-! A `recur` gives one value for each slot of its frame. A loop over patterns is lowered to a loop
over fresh names, and a parameter that is a pattern or missing gets a fresh name as well, but the
slots stay those that are written: one for each pair of a loop header, in order, and one for each
parameter (`slots_follow_source`). -/

namespace LispFront

namespace Pattern

/-- The slot for the value of a pair: its plain symbol, or one of the fresh names that the loop
draws. -/
def IsSlot (n : NameSupply) (drawn : Nat) (pair : Form × Form) (slot : Symbol) : Prop :=
  if isSimple pair.1 then slot.form = pair.1
  else ∃ index < drawn, slot = n.temp index pair.1.span

/-- The pairs of a loop header and their slots, in order. Fresh names differ from each other. -/
structure Slots (n : NameSupply) (pairs : List (Form × Form)) (slots : List Symbol) : Prop where
  matched : List.Forall₂ (IsSlot n (freshCount pairs)) pairs slots
  apart : (pairs.zip slots).Pairwise fun one other =>
    isSimple one.1.1 = false → isSimple other.1.1 = false → one.2.name ≠ other.2.name

/-- What a loop over patterns is lowered to. The outer `let` has each first value once, in
order, under the name of its slot; its other bindings take the slots of patterns apart, as those
of the inner `let` do. The loop in between starts each slot with itself. -/
def Nests (pairs : List (Form × Form)) (slots : List Symbol) (body : List Form)
    (span : Option Span) (form : Form) : Prop :=
  ∃ outer inner, form = letForm (Binder.flatten outer)
      [loopForm (Binder.flatten (slots.map fun slot => (slot.form, slot.form)))
        [letForm (Binder.flatten inner) body span] span] span ∧
    outer.filter (fun pair => isSimple pair.1) =
      (slots.map Symbol.form).zip (pairs.map Prod.snd) ∧
    outer.filter (fun pair => !isSimple pair.1) = inner ∧
    inner = ((pairs.map Prod.fst).zip (slots.map Symbol.form)).filter
      fun pair => !isSimple pair.1

section Rounds

variable {n : NameSupply} {pairs : List (Form × Form)} {slots : List Symbol}

theorem map_name_rounds_of_simple (simple : ∀ pair ∈ pairs, isSimple pair.1 = true) :
    (rounds n pairs).map Round.name = pairs.map Prod.fst := by
  induction pairs with
  | nil => rfl
  | cons pair rest ih =>
    obtain ⟨first, others⟩ := List.forall_mem_cons.mp simple
    simp [rounds, first, ih others, Round.name]

theorem matched_of_rounds (named : slots.map Symbol.form = (rounds n pairs).map Round.name) :
    List.Forall₂ (IsSlot n (freshCount pairs)) pairs slots := by
  have forms : List.Forall₂ (fun round slot => Round.name round = Symbol.form slot)
      (rounds n pairs) slots := by
    rw [← List.forall₂_map_right_iff, ← List.forall₂_map_left_iff, named, List.forall₂_eq_eq_eq]
  have parts : List.Forall₂ (IsSlot n (freshCount pairs))
      ((rounds n pairs).map fun round => (round.pattern, round.init)) slots := by
    rw [List.forall₂_map_left_iff]
    refine ((List.forall₂_and_left _ _).mpr ⟨fun _ member => temp_of_mem_rounds member, forms⟩).imp
      fun round slot given => ?_
    obtain ⟨⟨simple, temp⟩ | ⟨composite, index, bound, temp⟩, form⟩ := given
    · rw [IsSlot, if_pos simple, ← form, Round.name, temp, Option.elim_none]
    · rw [IsSlot, if_neg (by simp [composite])]
      refine ⟨index, bound, Symbol.form_inj ?_⟩
      rw [← form, Round.name, temp, Option.elim_some]
  rwa [map_rounds] at parts

theorem slots_of_rounds (named : slots.map Symbol.form = (rounds n pairs).map Round.name) :
    Slots n pairs slots := by
  refine ⟨matched_of_rounds named, ?_⟩
  induction pairs generalizing n slots with
  | nil => exact .nil
  | cons pair rest ih =>
    by_cases simple : isSimple pair.1 = true
    · rw [rounds, if_pos simple, List.map_cons] at named
      obtain ⟨slot, others, rfl, _, named⟩ := List.map_eq_cons_iff.mp named
      refine .cons (fun other member composite => ?_) (ih named)
      rw [simple] at composite
      contradiction
    · rw [rounds, if_neg simple, List.map_cons] at named
      obtain ⟨slot, others, rfl, own, named⟩ := List.map_eq_cons_iff.mp named
      refine .cons (fun other member _ composite same => ?_) (ih named)
      -- The later names are drawn from a supply that is one name further.
      have later := (List.forall₂_iff_zip.mp (matched_of_rounds named)).2 member
      rw [IsSlot, if_neg (by simp [composite])] at later
      obtain ⟨index, _, drawn⟩ := later
      obtain rfl : slot = n.temp 0 pair.1.span := Symbol.form_inj own
      rw [drawn] at same
      have numbers := (NameSupply.numbered_inj same).2
      rw [NameSupply.count_issue] at numbers
      omega

/-- In the outer `let`, a round has its first value under the name of its slot, and apart from
that what it has in the inner one. -/
theorem filter_outer {round : Round} (member : round ∈ rounds n pairs) :
    round.outer.filter (fun pair => isSimple pair.1) = [(round.name, round.init)] ∧
    round.outer.filter (fun pair => !isSimple pair.1) = round.inner ∧
    round.inner = [(round.pattern, round.name)].filter fun pair => !isSimple pair.1 := by
  rcases temp_of_mem_rounds member with ⟨simple, temp⟩ | ⟨composite, index, _, temp⟩
  · simp [Round.outer, Round.inner, Round.name, temp, simple]
  · have plain : isSimple (n.temp index round.pattern.span).form = true := rfl
    simp [Round.outer, Round.inner, Round.name, temp, composite, plain]

theorem nests_of_rounds {body : List Form} {span : Option Span}
    (named : slots.map Symbol.form = (rounds n pairs).map Round.name) :
    Nests pairs slots body span (nest (rounds n pairs) body span) := by
  have names : slots.map (fun slot => (slot.form, slot.form)) =
      (rounds n pairs).map fun round => (round.name, round.name) := by
    have doubled := congrArg (List.map fun form => (form, form)) named
    rwa [List.map_map, List.map_map] at doubled
  have patterns : (rounds n pairs).map Round.pattern = pairs.map Prod.fst := by
    have mapped := congrArg (List.map Prod.fst) (map_rounds pairs n)
    rwa [List.map_map] at mapped
  have inits : (rounds n pairs).map Round.init = pairs.map Prod.snd := by
    have mapped := congrArg (List.map Prod.snd) (map_rounds pairs n)
    rwa [List.map_map] at mapped
  refine ⟨(rounds n pairs).flatMap Round.outer, (rounds n pairs).flatMap Round.inner, ?_, ?_, ?_,
    ?_⟩
  · rw [names]
    rfl
  · rw [List.filter_flatMap, named, ← inits, List.zip_map', List.map_eq_flatMap]
    exact List.flatMap_congr fun round member => (filter_outer member).1
  · rw [List.filter_flatMap]
    exact List.flatMap_congr fun round member => (filter_outer member).2.1
  · rw [named, ← patterns, List.zip_map', List.map_eq_flatMap, List.filter_flatMap]
    exact List.flatMap_congr fun round member => (filter_outer member).2.2

end Rounds

end Pattern

theorem Binder.map_form_simplePairs {pairs : List (Form × Form)}
    (simple : ∀ pair ∈ pairs, Pattern.isSimple pair.1 = true) :
    ((simplePairs pairs).map Prod.fst).map Symbol.form = pairs.map Prod.fst := by
  induction pairs with
  | nil => rfl
  | cons pair rest ih =>
    obtain ⟨first, others⟩ := List.forall_mem_cons.mp simple
    obtain ⟨symbol, found⟩ := Option.isSome_iff_exists.mp first
    have kept : simplePairs (pair :: rest) = (symbol, pair.2) :: simplePairs rest := by
      simp [simplePairs, found]
    rw [kept, List.map_cons, List.map_cons, List.map_cons, ih others,
      Form.plainSymbol?_eq_some found]

namespace Parameters

variable {items : List Form} {span : Option Span} {params : Parameters} {n m : NameSupply}

theorem nameAll_length {symbols : List Symbol} {bindings : List Form}
    (run : Gives (nameAll items) n (symbols, bindings) m) : symbols.length = items.length := by
  induction items generalizing n symbols bindings with
  | nil =>
    simp only [nameAll, gives_pure, Prod.mk.injEq] at run
    obtain ⟨⟨rfl, _⟩, _⟩ := run
    rfl
  | cons pattern rest ih =>
    simp only [nameAll, gives_bind, gives_pure, Prod.mk.injEq] at run
    obtain ⟨_, _, _, ⟨others, _⟩, _, later, ⟨rfl, _⟩, rfl⟩ := run
    rw [List.length_cons, List.length_cons, ih later]

/-- Each pattern has a symbol: a plain symbol is its own, and any other pattern is bound to its
symbol, in order. -/
structure Named (patterns : List Form) (symbols : List Symbol) (bindings : List Form) : Prop where
  plain : ∀ pair ∈ patterns.zip symbols, Pattern.isSimple pair.1 = true → pair.2.form = pair.1
  bindings : bindings = Binder.flatten
    ((patterns.zip (symbols.map Symbol.form)).filter fun pair => !Pattern.isSimple pair.1)

theorem Named.append {patterns others : List Form} {symbols more : List Symbol}
    {bindings further : List Form} (same : patterns.length = symbols.length)
    (first : Named patterns symbols bindings) (second : Named others more further) :
    Named (patterns ++ others) (symbols ++ more) (bindings ++ further) where
  plain := by
    rw [List.zip_append same]
    exact List.forall_mem_append.mpr ⟨first.plain, second.plain⟩
  bindings := by
    rw [List.map_append, List.zip_append (by rw [List.length_map, same]), List.filter_append,
      Binder.flatten_append, ← first.bindings, ← second.bindings]

theorem named_nil (symbols : List Symbol) : Named [] symbols [] where
  plain := List.forall_mem_nil _
  bindings := rfl

theorem named_nameFor {pattern : Form} {symbol : Symbol} {bindings : List Form}
    (run : Gives (Pattern.nameFor pattern) n (symbol, bindings) m) :
    Named [pattern] [symbol] bindings := by
  unfold Pattern.nameFor at run
  split at run
  next found =>
    obtain ⟨⟨rfl, rfl⟩, _⟩ := gives_pure.mp run
    have same := Form.plainSymbol?_eq_some found
    have simple : Pattern.isSimple pattern = true := Option.isSome_iff_exists.mpr ⟨_, found⟩
    exact ⟨List.forall_mem_singleton.mpr fun _ => same.symm, by simp [simple, Binder.flatten]⟩
  next found =>
    simp only [gives_bind, gives_pure, Prod.mk.injEq] at run
    obtain ⟨_, _, _, ⟨rfl, rfl⟩, _⟩ := run
    have composite : Pattern.isSimple pattern = false := by rw [Pattern.isSimple, found]; rfl
    refine ⟨List.forall_mem_singleton.mpr fun simple => ?_, by simp [composite, Binder.flatten]⟩
    rw [composite] at simple
    contradiction

theorem named_nameAll {symbols : List Symbol} {bindings : List Form}
    (run : Gives (nameAll items) n (symbols, bindings) m) : Named items symbols bindings := by
  induction items generalizing n symbols bindings with
  | nil =>
    simp only [nameAll, gives_pure, Prod.mk.injEq] at run
    obtain ⟨⟨rfl, rfl⟩, _⟩ := run
    exact named_nil []
  | cons pattern rest ih =>
    simp only [nameAll, gives_bind, gives_pure, Prod.mk.injEq] at run
    obtain ⟨⟨symbol, here⟩, _, first, ⟨others, there⟩, _, later, ⟨rfl, rfl⟩, rfl⟩ := run
    exact (named_nameFor first).append rfl (ih later)

/-- The parameters stand in front of the first mark or behind it. -/
theorem filter_unmarked (items : List Form) :
    (items.filter fun item => !isMark item) = Pattern.front items ++ restPatterns items := by
  induction items with
  | nil => rfl
  | cons item rest ih =>
    by_cases marked : isMark item = true
    · rw [restPatterns, Pattern.front_cons_mark marked, Pattern.behind_cons_mark marked]
      simp [marked]
    · have kept : restPatterns (item :: rest) = restPatterns rest := by
        rw [restPatterns, Pattern.behind_cons marked, restPatterns]
      rw [Pattern.front_cons marked, kept, List.filter_cons_of_pos (by simpa using marked), ih,
        List.cons_append]

theorem dropWhile_unmarked_eq_nil :
    (items.dropWhile fun item => !isMark item) = [] ↔ items.any isMark = false := by
  rw [List.dropWhile_eq_nil_iff, List.any_eq_false]
  simp

theorem any_isMark_of_dropWhile {mark : Form} {behind : List Form}
    (marked : (items.dropWhile fun item => !isMark item) = mark :: behind) :
    items.any isMark = true := by
  by_contra absent
  rw [dropWhile_unmarked_eq_nil.mpr (Bool.eq_false_iff.mpr absent)] at marked
  contradiction

/-- One slot for each parameter, and one for the rest when the mark has no parameter behind it. -/
theorem lower_length (run : Gives (lower items span) n params m) :
    params.symbols.length = (items.filter fun item => !isMark item).length +
      if items.any isMark ∧ restPatterns items = [] then 1 else 0 := by
  have few : (restPatterns items).length ≤ 1 :=
    crowding_eq_none.mp ((judged_lower items span).accepts_iff.mp ⟨params, m, run⟩)
  rw [filter_unmarked, List.length_append]
  simp only [lower, gives_bind] at run
  obtain ⟨⟨symbols, bindings⟩, _, named, run⟩ := run
  have fronts : symbols.length = (Pattern.front items).length := nameAll_length named
  dsimp only at run
  split at run
  next unmarked =>
    obtain ⟨rfl, _⟩ := gives_pure.mp run
    have empty : restPatterns items = [] := by
      rw [restPatterns, Pattern.behind, unmarked, List.drop_nil, List.filter_nil]
    rw [if_neg (by simp [dropWhile_unmarked_eq_nil.mp unmarked]), empty, List.length_nil]
    omega
  next mark behind marked =>
    simp only [gives_bind, gives_pure] at run
    obtain ⟨⟨rest, _⟩, _, _, rfl, _⟩ := run
    have present := any_isMark_of_dropWhile marked
    rw [List.length_append, List.length_singleton]
    by_cases empty : restPatterns items = []
    · rw [if_pos ⟨present, empty⟩, empty, List.length_nil]
      omega
    · have positive := List.length_pos_iff.mpr empty
      rw [if_neg fun both => empty both.2]
      omega

theorem lower_variadic (run : Gives (lower items span) n params m) :
    params.variadic = items.any isMark := by
  simp only [lower, gives_bind] at run
  obtain ⟨⟨symbols, bindings⟩, _, _, run⟩ := run
  dsimp only at run
  split at run
  next unmarked =>
    obtain ⟨rfl, _⟩ := gives_pure.mp run
    exact (dropWhile_unmarked_eq_nil.mp unmarked).symm
  next mark behind marked =>
    simp only [gives_bind, gives_pure] at run
    obtain ⟨_, _, _, rfl, _⟩ := run
    exact (any_isMark_of_dropWhile marked).symm

/-- What stands in the list is named, marks apart. -/
theorem named_lower (run : Gives (lower items span) n params m) :
    Named (items.filter fun item => !isMark item) params.symbols params.bindings := by
  rw [filter_unmarked]
  simp only [lower, gives_bind] at run
  obtain ⟨⟨symbols, bindings⟩, _, named, run⟩ := run
  have fronts : (Pattern.front items).length = symbols.length := (nameAll_length named).symm
  have front : Named (Pattern.front items) symbols bindings := named_nameAll named
  dsimp only at run
  split at run
  next unmarked =>
    obtain ⟨rfl, _⟩ := gives_pure.mp run
    have empty : restPatterns items = [] := by
      rw [restPatterns, Pattern.behind, unmarked, List.drop_nil, List.filter_nil]
    rw [empty, List.append_nil]
    exact front
  next mark behind marked =>
    have patterns : restPatterns items = behind.filter fun item => !isMark item := by
      rw [restPatterns, Pattern.behind, marked, List.drop_one, List.tail_cons]
    simp only [gives_bind, gives_pure] at run
    obtain ⟨⟨rest, more⟩, _, last, rfl, _⟩ := run
    rw [patterns]
    refine front.append fronts ?_
    unfold nameRest at last
    split at last
    next none =>
      simp only [gives_bind, gives_pure, Prod.mk.injEq] at last
      obtain ⟨_, _, _, ⟨rfl, rfl⟩, _⟩ := last
      rw [none]
      exact named_nil _
    next pattern one =>
      rw [one]
      exact named_nameFor last
    next =>
      simp only [gives_bind] at last
      obtain ⟨_, _, _, thrown⟩ := last
      exact (not_gives_throw thrown).elim

end Parameters

/-- The node of a loop with these slots: its frame has them, and its bindings name them. -/
def Node.LoopsOver (node : Node) (slots : List Symbol) : Prop :=
  ∃ frame bindings body, node.shape = .loop frame bindings body ∧ frame.params = slots ∧
    bindings.map Binding.symbol = slots

/-- The node of a `let` whose body only returns the other node. -/
def Node.LetReturns (node inner : Node) : Prop :=
  ∃ bindings body, node.shape = .letIn bindings body ∧ body.shape = .block [] inner

namespace Analyzer

variable {analyzer : Analyzer} {head : Form} {args : List Form} {span : Option Span}
variable {metadata : Entries} {scope : Scope} {s t : State} {node : Node}

theorem analyzes_loop (special : special? head = some .loop)
    (analyzes : analyzer.Analyzes (.list (head :: args) span metadata) scope s node t) :
    ∃ pairs body, Binder.header .loop args span = .ok (pairs, body) ∧
      if pairs.all fun pair => Pattern.isSimple pair.1 then
        node.LoopsOver ((Binder.simplePairs pairs).map Prod.fst)
      else ∃ form names, Gives (Pattern.lowerLoop pairs body span) s.names form names ∧
        analyzer.Analyzes form scope { s with names } node t := by
  obtain ⟨expand, depth, run⟩ := analyzes.step
  simp only [analyzeForm, special, analyzeSpecial, analyzeLoop, gives_bind, gives_ofExcept] at run
  obtain ⟨⟨pairs, body⟩, _, ⟨read, rfl⟩, run⟩ := run
  refine ⟨pairs, body, read, ?_⟩
  dsimp only at run
  split at run
  next simple =>
    rw [if_pos simple]
    simp only [gives_bind, gives_pure, gives_newFrame] at run
    obtain ⟨frame, _, ⟨rfl, _⟩, ⟨bindings, _⟩, _, bound, loopBody, _, _, rfl, _⟩ := run
    exact ⟨_, bindings, loopBody, rfl, rfl, Binder.bindAll_symbols bound⟩
  next composite =>
    rw [if_neg composite]
    simp only [gives_bind, gives_ofNames] at run
    obtain ⟨form, _, ⟨names, lowered, rfl⟩, visited⟩ := run
    exact ⟨form, names, lowered, expand, depth, visited⟩

theorem analyzes_letForm {bindings : List Form} {form : Form}
    (analyzes : analyzer.Analyzes (Pattern.letForm bindings [form] span) scope s node t) :
    ∃ inner bodyScope u v, node.LetReturns inner ∧ analyzer.Analyzes form bodyScope u inner v := by
  obtain ⟨expand, depth, run⟩ := analyzes.step
  have special : special? (.plainSymbol "let") = some .letIn := rfl
  simp only [Pattern.letForm, analyzeForm, special, analyzeSpecial, analyzeLet, gives_bind,
    gives_pure, gives_ofExcept] at run
  obtain ⟨⟨pairs, body⟩, _, ⟨read, rfl⟩, flat, _, _, ⟨values, bodyScope⟩, _, _, node, _, returned,
    rfl, _⟩ := run
  obtain ⟨_, _, _, same, _⟩ := Binder.header_eq_ok read
  obtain rfl := (List.cons.inj same).2
  simp only [analyzeBody, gives_bind, gives_pure] at returned
  obtain ⟨stmts, _, first, inner, _, visited, rfl, _⟩ := returned
  obtain ⟨rfl, _⟩ := gives_pure.mp first
  exact ⟨inner, bodyScope, _, _, ⟨values, _, rfl, rfl⟩, expand, depth, visited⟩

/-- The loop in the middle is over plain symbols, so it is not lowered again. -/
theorem analyzes_nest {n : NameSupply} {pairs : List (Form × Form)} {body : List Form}
    (analyzes : analyzer.Analyzes (Pattern.nest (Pattern.rounds n pairs) body span) scope s node
      t) :
    ∃ slots loop, slots.map Symbol.form = (Pattern.rounds n pairs).map Pattern.Round.name ∧
      loop.LoopsOver slots ∧ node.LetReturns loop := by
  obtain ⟨loop, bodyScope, u, v, returned, inside⟩ := analyzes_letForm analyzes
  obtain ⟨middle, rest, read, looped⟩ := analyzes_loop rfl inside
  obtain ⟨rfl, _⟩ := Prod.mk.inj (Except.ok.inj ((Binder.header_flatten ..).symm.trans read))
  rw [if_pos Pattern.rounds_simple] at looped
  refine ⟨_, loop, ?_, looped, returned⟩
  rw [Binder.map_form_simplePairs (List.all_eq_true.mp Pattern.rounds_simple), List.map_map]
  rfl

theorem analyzes_fn (special : special? head = some .fn)
    (analyzes : analyzer.Analyzes (.list (head :: args) span metadata) scope s node t) :
    ∃ items place own body lambda params names, args = .vector items place own :: body ∧
      node.shape = .fn lambda ∧ Gives (Parameters.lower items place) s.names params names ∧
      lambda.params = params.symbols ∧ lambda.frame.params = params.symbols := by
  obtain ⟨expand, depth, run⟩ := analyzes.step
  simp only [analyzeForm, special, analyzeSpecial, analyzeFn, gives_bind, gives_pure] at run
  obtain ⟨lambda, _, run, rfl, _⟩ := run
  unfold analyzeLambda at run
  split at run
  · exact (not_gives_fail run).elim
  next items place own body =>
    simp only [gives_bind, gives_pure, gives_ofNames, gives_newFrame] at run
    obtain ⟨params, _, ⟨names, lowered, _⟩, _, _, ⟨rfl, _⟩, _, _, _, rfl, _⟩ := run
    exact ⟨items, place, own, body, _, params, names, rfl, rfl, lowered, rfl, rfl⟩
  · exact (not_gives_failAt run).elim

end Analyzer

open Analyzer Pattern Parameters in
/-- The slots that `recur` fills are those that are written. A loop has one for each of its pairs,
in order: the plain symbol that stands there, or else a fresh name, and then the loop is the result
of a `let`, in whose lowered form the first values stand once each and in order. A function has one
for each of its parameters, and one more when nothing but marks follows the first mark. -/
theorem slots_follow_source {analyzer : Analyzer} {head : Form} {args : List Form}
    {span : Option Span} {metadata : Entries} {scope : Scope} {s t : State} {node : Node}
    (analyzes : analyzer.Analyzes (.list (head :: args) span metadata) scope s node t) :
    (special? head = some .loop →
      ∃ pairs body slots loop, Binder.header .loop args span = .ok (pairs, body) ∧
        Slots s.names pairs slots ∧ loop.LoopsOver slots ∧
        ((∀ pair ∈ pairs, isSimple pair.1 = true) ∧ node = loop ∨
          (∃ pair ∈ pairs, isSimple pair.1 = false) ∧ node.LetReturns loop ∧
          ∃ form names, Gives (lowerLoop pairs body span) s.names form names ∧
            Nests pairs slots body span form ∧
            analyzer.Analyzes form scope { s with names } node t)) ∧
    (special? head = some .fn →
      ∃ items place own body lambda, args = .vector items place own :: body ∧
        node.shape = .fn lambda ∧ lambda.frame.params = lambda.params ∧
        lambda.params.length = (items.filter fun item => !isMark item).length +
          if items.any isMark ∧ restPatterns items = [] then 1 else 0) := by
  constructor
  · intro special
    obtain ⟨pairs, body, read, result⟩ := analyzes_loop special analyzes
    split at result
    next all =>
      have simple : ∀ pair ∈ pairs, isSimple pair.1 = true := List.all_eq_true.mp all
      have named := (Binder.map_form_simplePairs simple).trans
        (map_name_rounds_of_simple (n := s.names) simple).symm
      exact ⟨pairs, body, _, node, read, slots_of_rounds named, result, .inl ⟨simple, rfl⟩⟩
    next mixed =>
      have composite : ∃ pair ∈ pairs, isSimple pair.1 = false := by simpa using mixed
      obtain ⟨form, names, lowered, visited⟩ := result
      obtain ⟨rfl, _⟩ := lowered.unique (gives_lowerLoop pairs body span s.names)
      obtain ⟨slots, loop, named, looped, returned⟩ := analyzes_nest visited
      exact ⟨pairs, body, slots, loop, read, slots_of_rounds named, looped,
        .inr ⟨composite, returned, _, names, lowered, nests_of_rounds named, visited⟩⟩
  · intro special
    obtain ⟨items, place, own, body, lambda, params, _, rfl, shape, lowered, symbols, frame⟩ :=
      analyzes_fn special analyzes
    refine ⟨items, place, own, body, lambda, rfl, shape, frame.trans symbols.symm, ?_⟩
    rw [symbols, lower_length lowered]

/-- The form `(loop [n 0 [] nil {} nil] n)`. -/
def Form.mixedLoop : Form :=
  .list [.plainSymbol "loop", .vector [.plainSymbol "n", .int 0, .vector [] none [], .nil,
    .map [] none [], .nil] none [], .plainSymbol "n"] none []

/-- The form `(fn [x [] &] x)`. -/
def Form.openFn : Form :=
  .list [.plainSymbol "fn", .vector [.plainSymbol "x", .vector [] none [], .plainSymbol "&"]
    none [], .plainSymbol "x"] none []

set_option maxRecDepth 10000 in
theorem slots_follow_source_mixed :
    (∃ node t loop slots, Gives (({} : Analyzer).analyze .mixedLoop .top)
      { registry := .ofSettings {} } node t ∧ node.LetReturns loop ∧ loop.LoopsOver slots ∧
      slots.length = 3) ∧
    ∃ node t lambda, Gives (({} : Analyzer).analyze .openFn .top) { registry := .ofSettings {} }
      node t ∧ node.shape = .fn lambda ∧ lambda.frame.params.length = 3 := by
  constructor
  · obtain ⟨node, t, run⟩ : ∃ node t, Gives (({} : Analyzer).analyze .mixedLoop .top)
        { registry := .ofSettings {} } node t := exists_gives_of_isOk (by decide +kernel)
    obtain ⟨pairs, body, slots, loop, read, matched, looped, result⟩ :=
      (slots_follow_source (Analyzer.analyzes_of_analyze run)).1 rfl
    obtain ⟨rfl, rfl⟩ := Prod.mk.inj (Except.ok.inj read)
    rcases result with ⟨simple, _⟩ | ⟨_, returned, _⟩
    · simp [Pattern.isSimple, Form.plainSymbol?, Form.symbol?] at simple
    · exact ⟨node, t, loop, slots, run, returned, looped, matched.matched.length_eq.symm⟩
  · obtain ⟨node, t, run⟩ : ∃ node t, Gives (({} : Analyzer).analyze .openFn .top)
        { registry := .ofSettings {} } node t := exists_gives_of_isOk (by decide +kernel)
    obtain ⟨items, place, own, body, lambda, same, shape, frame, count⟩ :=
      (slots_follow_source (Analyzer.analyzes_of_analyze run)).2 rfl
    obtain ⟨rfl, _, _⟩ := Form.vector.inj (List.cons.inj same).1
    exact ⟨node, t, lambda, run, shape, (congrArg List.length frame).trans count⟩

end LispFront
