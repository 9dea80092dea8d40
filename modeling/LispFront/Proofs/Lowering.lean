import LispFront.Analysis.Struct
import LispFront.Analysis.Guarded
import LispFront.Proofs.Ordered
import LispFront.Proofs.PlainNames

/-! The rules read a form into parts and lower patterns into plain bindings. The lemmas here say of
each reader and each lowering where the forms it gives come from: they stand in the input, or they
are fresh names, or parts taken from an intermediate value. `good` is any property of forms that
such forms have. -/

namespace LispFront

/-- The items of a list or vector. -/
def Form.items : Form → List Form
  | .list items _ _ | .vector items _ _ => items
  | _ => []

/-- The pattern stands inside of another. -/
inductive Form.Beneath : Form → Form → Prop where
  | element {items : List Form} {span : Option Span} {metadata : Entries} {item : Form}
      (member : item ∈ items) : Beneath item (.vector items span metadata)
  | key {entries : Entries} {span : Option Span} {metadata : Entries} {entry : Form × Form}
      (member : entry ∈ entries) : Beneath entry.1 (.map entries span metadata)
  | value {entries : Entries} {span : Option Span} {metadata : Entries} {entry : Form × Form}
      (member : entry ∈ entries) : Beneath entry.2 (.map entries span metadata)
  | trans {inner middle outer : Form} (first : Beneath inner middle)
      (second : Beneath middle outer) : Beneath inner outer

theorem Symbol.form_inj {first second : Symbol} (same : first.form = second.form) :
    first = second := by
  cases first
  cases second
  simpa [Symbol.form] using same

theorem Form.plainSymbol?_eq_some {form : Form} {symbol : Symbol}
    (found : form.plainSymbol? = some symbol) : form = symbol.form := by
  have symbol? := (Option.filter_eq_some_iff.mp found).1
  cases form with
  | symbol name span metadata =>
    obtain rfl := Option.some.inj symbol?
    rfl
  | _ => contradiction

theorem Form.plainSymbol?_iff {form : Form} {symbol : Symbol} :
    form.plainSymbol? = some symbol ↔ form = symbol.form ∧ symbol.Plain := by
  constructor
  · intro found
    exact ⟨Form.plainSymbol?_eq_some found, Form.plainSymbol?_plain found⟩
  · rintro ⟨rfl, plain⟩
    refine Option.filter_eq_some_iff.mpr ⟨rfl, ?_⟩
    rw [Symbol.plain_iff.mp plain]
    rfl

/-- A fresh name for an intermediate value. -/
def Symbol.IsTemp (symbol : Symbol) : Prop :=
  ∃ number, symbol.name = (NameSupply.numbered NameSupply.tempStem number).name ∧
    symbol.metadata = []

theorem drawTemp_isTemp {span : Option Span} {symbol : Symbol} {n m : NameSupply}
    (run : Gives (NameSupply.drawTemp span) n symbol m) : symbol.IsTemp := by
  simp only [NameSupply.drawTemp, gives_bind, gives_draw, gives_pure] at run
  obtain ⟨_, _, ⟨rfl, _⟩, rfl, _⟩ := run
  exact ⟨_, rfl, rfl⟩

namespace Pattern

variable {core : String} {n m : NameSupply} {flat : List (Symbol × Form)}

/-- A part that lowering takes from an intermediate value, by a position or by a key of the
pattern. -/
def IsPart (core : String) (pattern form : Form) : Prop :=
  ∃ whole span, whole.IsTemp ∧
    ((∃ key, (key.Beneath pattern ∨ ∃ index, key = .int index) ∧
        form = element core whole key span) ∨
      ∃ index, form = remainder core whole index span)

theorem IsPart.mono {inner pattern form : Form} (inside : inner.Beneath pattern)
    (part : IsPart core inner form) : IsPart core pattern form := by
  obtain ⟨whole, span, temp, ⟨key, own | index, same⟩ | remainder⟩ := part
  · exact ⟨whole, span, temp, .inl ⟨key, .inl (own.trans inside), same⟩⟩
  · exact ⟨whole, span, temp, .inl ⟨key, .inr index, same⟩⟩
  · exact ⟨whole, span, temp, .inr remainder⟩

/-- The first of the bindings is that of the value, and behind it come parts of it. -/
def TakesApart (core : String) (pattern value : Form) (flat : List (Symbol × Form)) : Prop :=
  ∃ first rest, flat = (first, value) :: rest ∧ ∀ pair ∈ rest, IsPart core pattern pair.2

/-- What is taken from a part of the whole is a part of the whole. -/
theorem TakesApart.isPart {source pattern value : Form} (inside : pattern.Beneath source)
    (part : IsPart core source value) (apart : TakesApart core pattern value flat) :
    ∀ pair ∈ flat, IsPart core source pair.2 := by
  obtain ⟨first, rest, rfl, parts⟩ := apart
  exact List.forall_mem_cons.mpr ⟨part, fun pair member => (parts pair member).mono inside⟩

theorem unlessIgnored_values {pattern : Form} {bindings : NameM (List (Symbol × Form))}
    {P : Form → Prop} (values : ∀ {n flat m}, Gives bindings n flat m → ∀ pair ∈ flat, P pair.2)
    (run : Gives (unlessIgnored pattern bindings) n flat m) : ∀ pair ∈ flat, P pair.2 := by
  unfold unlessIgnored at run
  split at run
  · obtain ⟨rfl, _⟩ := gives_pure.mp run
    simp
  · exact values run

mutual
/-- Lowering binds the value as it is, and then parts of it. -/
theorem lower_values : ∀ (pattern value : Form) {n m : NameSupply} {flat : List (Symbol × Form)},
    Gives (lower core pattern value) n flat m → TakesApart core pattern value flat
  | .symbol name span metadata, value, n, m, flat, run => by
    unfold lower at run
    split at run
    · exact (not_gives_throw run).elim
    · obtain ⟨rfl, _⟩ := gives_pure.mp run
      exact ⟨_, [], rfl, by simp⟩
  | .vector items span metadata, value, n, m, flat, run => by
    unfold lower at run
    simp only [gives_bind, gives_pure] at run
    obtain ⟨whole, _, drawn, parts, _, lowered, rfl, _⟩ := run
    exact ⟨whole, parts, rfl,
      lowerItems_values items (fun _ => .element) (drawTemp_isTemp drawn) lowered⟩
  | .map entries span metadata, value, n, m, flat, run => by
    unfold lower at run
    simp only [gives_bind, gives_pure] at run
    obtain ⟨whole, _, drawn, parts, _, lowered, rfl, _⟩ := run
    refine ⟨whole, parts, rfl, lowerEntries_values entries ?_ (drawTemp_isTemp drawn) lowered⟩
    exact fun _ member => ⟨.key member, .value member⟩
  | .nil, _, _, _, _, run => (not_gives_throw run).elim
  | .bool _, _, _, _, _, run => (not_gives_throw run).elim
  | .int _, _, _, _, _, run => (not_gives_throw run).elim
  | .float _, _, _, _, _, run => (not_gives_throw run).elim
  | .str _, _, _, _, _, run => (not_gives_throw run).elim
  | .keyword _, _, _, _, _, run => (not_gives_throw run).elim
  | .list .., _, _, _, _, run => (not_gives_throw run).elim

theorem lowerItems_values : ∀ (items : List Form) {source : Form} {whole : Symbol}
    {span : Option Span} {index : Nat} {n m : NameSupply} {flat : List (Symbol × Form)},
    (∀ item ∈ items, item.Beneath source) → whole.IsTemp →
    Gives (lowerItems core whole span index items) n flat m →
    ∀ pair ∈ flat, IsPart core source pair.2
  | [], _, _, _, _, _, _, _, _, _, run => by
    obtain ⟨rfl, _⟩ := gives_pure.mp run
    simp
  | item :: rest, source, whole, span, index, _, _, _, inside, temp, run => by
    obtain ⟨own, others⟩ := List.forall_mem_cons.mp inside
    unfold lowerItems at run
    split at run
    · exact lowerRest_values rest others temp run
    · simp only [gives_bind, gives_pure] at run
      obtain ⟨here, _, first, there, _, later, rfl, _⟩ := run
      have part : IsPart core source (element core whole (.int index) span) :=
        ⟨whole, span, temp, .inl ⟨.int index, .inr ⟨index, rfl⟩, rfl⟩⟩
      have taken := unlessIgnored_values
        (fun lowered => (lower_values item _ lowered).isPart own part) first
      exact List.forall_mem_append.mpr ⟨taken, lowerItems_values rest others temp later⟩

theorem lowerRest_values : ∀ (items : List Form) {source : Form} {whole : Symbol}
    {span : Option Span} {index : Nat} {n m : NameSupply} {flat : List (Symbol × Form)},
    (∀ item ∈ items, item.Beneath source) → whole.IsTemp →
    Gives (lowerRest core whole span index items) n flat m →
    ∀ pair ∈ flat, IsPart core source pair.2
  | [], _, _, _, _, _, _, _, _, _, run => by
    obtain ⟨rfl, _⟩ := gives_pure.mp run
    simp
  | [pattern], source, whole, span, index, _, _, _, inside, temp, run =>
    have part : IsPart core source (remainder core whole index span) :=
      ⟨whole, span, temp, .inr ⟨index, rfl⟩⟩
    have own := inside pattern List.mem_cons_self
    unlessIgnored_values (fun lowered => (lower_values pattern _ lowered).isPart own part) run
  | _ :: _ :: _, _, _, _, _, _, _, _, _, _, run => (not_gives_throw run).elim

theorem lowerEntries_values : ∀ (entries : List (Form × Form)) {source : Form} {whole : Symbol}
    {span : Option Span} {n m : NameSupply} {flat : List (Symbol × Form)},
    (∀ entry ∈ entries, entry.1.Beneath source ∧ entry.2.Beneath source) → whole.IsTemp →
    Gives (lowerEntries core whole span entries) n flat m →
    ∀ pair ∈ flat, IsPart core source pair.2
  | [], _, _, _, _, _, _, _, _, run => by
    obtain ⟨rfl, _⟩ := gives_pure.mp run
    simp
  | (key, pattern) :: rest, source, whole, span, _, _, _, inside, temp, run => by
    obtain ⟨own, others⟩ := List.forall_mem_cons.mp inside
    unfold lowerEntries at run
    simp only [gives_bind, gives_pure] at run
    obtain ⟨here, _, first, there, _, later, rfl, _⟩ := run
    have part : IsPart core source (element core whole key span) :=
      ⟨whole, span, temp, .inl ⟨key, .inl own.1, rfl⟩⟩
    have taken := unlessIgnored_values
      (fun lowered => (lower_values pattern _ lowered).isPart own.2 part) first
    exact List.forall_mem_append.mpr ⟨taken, lowerEntries_values rest others temp later⟩
end

end Pattern

variable {good : Form → Prop}

/-- All keys and values have the property. -/
def Entries.All (good : Form → Prop) (entries : Entries) : Prop :=
  ∀ entry ∈ entries, good entry.1 ∧ good entry.2

section Readers

namespace Binder

/-- The items of a binding vector. -/
def flatten (pairs : List (Form × Form)) : List Form :=
  pairs.flatMap fun pair => [pair.1, pair.2]

theorem pairs?_flatten (pairs : List (Form × Form)) : pairs? (flatten pairs) = some pairs := by
  induction pairs with
  | nil => rfl
  | cons pair rest ih =>
    change (pairs? (flatten rest)).map _ = _
    rw [ih]
    rfl

theorem header_flatten (form : SpecialForm) (pairs : List (Form × Form)) (body : List Form)
    (span place : Option Span) (metadata : Entries) :
    header form (.vector (flatten pairs) place metadata :: body) span = .ok (pairs, body) := by
  simp only [header, pairs?_flatten]

theorem flatten_append (first second : List (Form × Form)) :
    flatten (first ++ second) = flatten first ++ flatten second :=
  List.flatMap_append

theorem pairs?_all {items : List Form} {pairs : List (Form × Form)}
    (all : ∀ item ∈ items, good item) (paired : pairs? items = some pairs) :
    Entries.All good pairs := by
  induction items using pairs?.induct generalizing pairs with
  | case1 =>
    obtain rfl := Option.some.inj paired
    exact List.forall_mem_nil _
  | case2 => contradiction
  | case3 name value rest ih =>
    obtain ⟨others, more, rfl⟩ := Option.map_eq_some_iff.mp paired
    simp only [List.forall_mem_cons] at all
    exact List.forall_mem_cons.mpr ⟨⟨all.1, all.2.1⟩, ih all.2.2 more⟩

theorem header_eq_ok {form : SpecialForm} {args body : List Form} {span : Option Span}
    {pairs : List (Form × Form)} (read : header form args span = .ok (pairs, body)) :
    ∃ items vectorSpan vectorMetadata, args = .vector items vectorSpan vectorMetadata :: body ∧
      pairs? items = some pairs := by
  unfold header at read
  split at read
  · contradiction
  next items vectorSpan vectorMetadata rest =>
    split at read
    next paired =>
      obtain ⟨rfl, rfl⟩ := Prod.mk.inj (Except.ok.inj read)
      exact ⟨items, vectorSpan, vectorMetadata, rfl, paired⟩
    · contradiction
  · contradiction

theorem simplePairs_all {pairs : List (Form × Form)} (all : Entries.All good pairs) :
    ∀ pair ∈ simplePairs pairs, good pair.2 := by
  intro pair member
  obtain ⟨⟨pattern, init⟩, listed, found⟩ := List.mem_filterMap.mp member
  obtain ⟨symbol, _, rfl⟩ := Option.map_eq_some_iff.mp found
  exact (all _ listed).2

end Binder

namespace Guarded

theorem clause?_eq_some {base : String} {form : Form} {clause : Clause}
    (found : clause? base form = some clause) : clause.form = form := by
  unfold clause? at found
  split at found
  · split at found
    · obtain rfl := Option.some.inj found
      rfl
    · contradiction
  · contradiction

theorem clauses_all {forms : List Form} {handlers : List Clause} {cleanup : Option Clause}
    (all : ∀ form ∈ forms, good form) (read : clauses forms = .ok (handlers, cleanup)) :
    (∀ clause ∈ handlers, good clause.form) ∧ ∀ clause ∈ cleanup, good clause.form := by
  induction forms generalizing handlers cleanup with
  | nil =>
    obtain ⟨rfl, rfl⟩ := Prod.mk.inj (Except.ok.inj read)
    simp
  | cons form rest ih =>
    obtain ⟨own, others⟩ := List.forall_mem_cons.mp all
    unfold clauses at read
    split at read
    next clause found =>
      match more : clauses rest with
      | .ok (later, last) =>
        rw [more] at read
        obtain ⟨rfl, rfl⟩ := Prod.mk.inj (Except.ok.inj read)
        obtain ⟨handlersAll, cleanupAll⟩ := ih others more
        exact ⟨List.forall_mem_cons.mpr ⟨clause?_eq_some found ▸ own, handlersAll⟩, cleanupAll⟩
      | .error error =>
        rw [more] at read
        contradiction
    next =>
      split at read
      next clause found =>
        obtain ⟨rfl, rfl⟩ := Prod.mk.inj (Except.ok.inj read)
        have last : good clause.form := clause?_eq_some found ▸ own
        simpa using last
      · contradiction
      · contradiction

theorem parts_all {forms : List Form} {parts : Parts} (all : ∀ form ∈ forms, good form)
    (read : Guarded.parts forms = .ok parts) :
    (∀ form ∈ parts.body, good form) ∧ (∀ clause ∈ parts.handlers, good clause.form) ∧
    ∀ clause ∈ parts.cleanup, good clause.form := by
  unfold Guarded.parts at read
  match split : clauses (forms.dropWhile fun form => !isClause form) with
  | .ok (handlers, cleanup) =>
    simp only [split] at read
    obtain rfl := Except.ok.inj read
    exact ⟨fun form member => all form ((List.takeWhile_sublist _).mem member),
      clauses_all (fun form member => all form ((List.dropWhile_sublist _).mem member)) split⟩
  | .error error =>
    simp only [split] at read
    contradiction

end Guarded

namespace Struct

/-- The list that a method is written as. -/
def MethodForm.Listed (forms : List Form) (method : MethodForm) : Prop :=
  ∃ metadata, .list method.items method.span metadata ∈ forms

theorem addMethod_all {P : MethodForm → Prop} {method : MethodForm} {groups more : List Group}
    (own : P method) (all : ∀ group ∈ groups, ∀ method ∈ group.methods, P method)
    (added : addMethod method groups = some more) :
    ∀ group ∈ more, ∀ method ∈ group.methods, P method := by
  induction groups using addMethod.induct generalizing more with
  | case1 => contradiction
  | case2 group =>
    obtain rfl := Option.some.inj added
    have before := all group List.mem_cons_self
    refine List.forall_mem_singleton.mpr ?_
    exact List.forall_mem_append.mpr ⟨before, List.forall_mem_singleton.mpr own⟩
  | case3 group rest _ ih =>
    obtain ⟨first, others⟩ := List.forall_mem_cons.mp all
    simp only [addMethod] at added
    obtain ⟨later, found, rfl⟩ := Option.map_eq_some_iff.mp added
    exact List.forall_mem_cons.mpr ⟨first, ih others found⟩

theorem group_all {P : MethodForm → Prop} {forms : List Form} {before groups : List Group}
    (all : ∀ group ∈ before, ∀ method ∈ group.methods, P method)
    (listed : ∀ method : MethodForm, method.Listed forms → P method)
    (read : group before forms = .ok groups) :
    ∀ group ∈ groups, ∀ method ∈ group.methods, P method := by
  induction before, forms using group.induct with
  | case1 before =>
    obtain rfl := Except.ok.inj read
    exact all
  | case2 before name span metadata rest ih =>
    refine ih ?_ ?_ read
    · simpa [List.forall_mem_append, or_imp, forall_and] using all
    · exact fun method ⟨own, member⟩ => listed method ⟨own, List.mem_cons_of_mem _ member⟩
  | case3 before items span metadata rest more added ih =>
    simp only [group, added] at read
    refine ih ?_ ?_ read
    · exact addMethod_all (listed _ ⟨metadata, List.mem_cons_self⟩) all added
    · exact fun method ⟨own, member⟩ => listed method ⟨own, List.mem_cons_of_mem _ member⟩
  | case4 before items span metadata rest refused =>
    simp only [group, refused] at read
    contradiction
  | case5 before other rest _ _ =>
    simp only [group] at read
    contradiction

end Struct

end Readers

section Lowering

variable (fresh : ∀ symbol : Symbol, symbol.IsTemp → good symbol.form)
variable {bindings body : List Form} {span : Option Span} {n m : NameSupply}

theorem Pattern.lowerPairs_all {core : String} {pairs : List (Form × Form)}
    {flat : List (Symbol × Form)} (values : ∀ pair ∈ pairs, good pair.2)
    (parts : ∀ pair ∈ pairs, ∀ form, Pattern.IsPart core pair.1 form → good form)
    (run : Gives (Pattern.lowerPairs core pairs) n flat m) : ∀ pair ∈ flat, good pair.2 := by
  induction pairs generalizing n flat with
  | nil =>
    obtain ⟨rfl, _⟩ := gives_pure.mp run
    simp
  | cons given rest ih =>
    obtain ⟨value, values⟩ := List.forall_mem_cons.mp values
    obtain ⟨part, parts⟩ := List.forall_mem_cons.mp parts
    simp only [Pattern.lowerPairs, gives_bind, gives_pure] at run
    obtain ⟨here, _, first, there, _, later, rfl, rfl⟩ := run
    obtain ⟨whole, behind, rfl, taken⟩ := Pattern.lower_values _ _ first
    refine List.forall_mem_append.mpr ⟨List.forall_mem_cons.mpr ⟨value, ?_⟩, ih values parts later⟩
    exact fun pair member => part pair.2 (taken pair member)

include fresh

theorem Pattern.nameFor_all {pattern : Form} {symbol : Symbol} (own : good pattern)
    (run : Gives (Pattern.nameFor pattern) n (symbol, bindings) m) :
    ∀ form ∈ bindings, good form := by
  unfold Pattern.nameFor at run
  split at run
  · obtain ⟨same, _⟩ := gives_pure.mp run
    obtain ⟨_, rfl⟩ := Prod.mk.inj same
    simp
  · simp only [gives_bind, gives_pure, Prod.mk.injEq] at run
    obtain ⟨temp, _, drawn, ⟨_, rfl⟩, _⟩ := run
    simpa using ⟨own, fresh temp (drawTemp_isTemp drawn)⟩

theorem Pattern.nameForOption_all {pattern : Option Form} {symbol : Option Symbol}
    (all : ∀ form ∈ pattern, good form)
    (run : Gives (Pattern.nameForOption pattern) n (symbol, bindings) m) :
    ∀ form ∈ bindings, good form := by
  cases pattern with
  | none =>
    obtain ⟨same, _⟩ := gives_pure.mp run
    obtain ⟨_, rfl⟩ := Prod.mk.inj same
    simp
  | some pattern =>
    simp only [Pattern.nameForOption, gives_bind, gives_pure, Prod.mk.injEq] at run
    obtain ⟨⟨name, here⟩, _, named, ⟨_, rfl⟩, _⟩ := run
    exact Pattern.nameFor_all fresh (all pattern rfl) named

namespace Parameters

theorem nameAll_all {items : List Form} {symbols : List Symbol} (all : ∀ item ∈ items, good item)
    (run : Gives (nameAll items) n (symbols, bindings) m) : ∀ form ∈ bindings, good form := by
  induction items generalizing n symbols bindings with
  | nil =>
    obtain ⟨same, _⟩ := gives_pure.mp run
    obtain ⟨_, rfl⟩ := Prod.mk.inj same
    simp
  | cons pattern rest ih =>
    obtain ⟨own, others⟩ := List.forall_mem_cons.mp all
    simp only [nameAll, gives_bind, gives_pure, Prod.mk.injEq] at run
    obtain ⟨⟨symbol, here⟩, _, named, ⟨symbols, there⟩, _, later, ⟨_, rfl⟩, rfl⟩ := run
    exact List.forall_mem_append.mpr ⟨Pattern.nameFor_all fresh own named, ih others later⟩

theorem nameRest_all {items : List Form} {symbol : Symbol} (all : ∀ item ∈ items, good item)
    (run : Gives (nameRest items span) n (symbol, bindings) m) : ∀ form ∈ bindings, good form := by
  unfold nameRest at run
  split at run
  · simp only [gives_bind, gives_pure, Prod.mk.injEq] at run
    obtain ⟨temp, _, _, ⟨_, rfl⟩, _⟩ := run
    simp
  next pattern one =>
    have listed : pattern ∈ items.filter fun item => !isMark item := by simp [one]
    exact Pattern.nameFor_all fresh (all pattern (List.mem_filter.mp listed).1) run
  · simp only [gives_bind, not_gives_throw, and_false, exists_false] at run

theorem lower_all {items : List Form} {params : Parameters} (all : ∀ item ∈ items, good item)
    (run : Gives (lower items span) n params m) : ∀ form ∈ params.bindings, good form := by
  simp only [lower, gives_bind] at run
  obtain ⟨⟨symbols, bindings⟩, _, named, run⟩ := run
  have before := nameAll_all fresh
    (fun item member => all item ((List.takeWhile_sublist _).mem member)) named
  dsimp only at run
  split at run
  · obtain ⟨rfl, _⟩ := gives_pure.mp run
    exact before
  next mark behind found =>
    simp only [gives_bind, gives_pure] at run
    obtain ⟨⟨rest, restBindings⟩, _, last, rfl, _⟩ := run
    have inside : ∀ item ∈ behind, item ∈ items := fun item member =>
      (List.dropWhile_sublist _).mem (found ▸ List.mem_cons_of_mem mark member)
    exact List.forall_mem_append.mpr
      ⟨before, nameRest_all fresh (fun item member => all item (inside item member)) last⟩

end Parameters

theorem Pattern.loopHeader_all {pairs : List (Form × Form)} {header : Pattern.LoopHeader}
    (all : Entries.All good pairs) (run : Gives (Pattern.loopHeader pairs) n header m) :
    (∀ form ∈ header.outer, good form) ∧ (∀ form ∈ header.names, good form) ∧
    ∀ form ∈ header.inner, good form := by
  induction pairs generalizing n header with
  | nil =>
    obtain ⟨rfl, _⟩ := gives_pure.mp run
    simp
  | cons pair rest ih =>
    obtain ⟨own, others⟩ := List.forall_mem_cons.mp all
    unfold Pattern.loopHeader at run
    split at run
    · simp only [gives_bind, gives_pure] at run
      obtain ⟨later, _, more, rfl, rfl⟩ := run
      obtain ⟨outer, names, inner⟩ := ih others more
      simp only [List.forall_mem_cons]
      exact ⟨⟨own.1, own.2, outer⟩, ⟨own.1, own.1, names⟩, inner⟩
    · simp only [gives_bind, gives_pure] at run
      obtain ⟨temp, _, drawn, later, _, more, rfl, rfl⟩ := run
      obtain ⟨outer, names, inner⟩ := ih others more
      have new := fresh temp (drawTemp_isTemp drawn)
      simp only [List.forall_mem_cons]
      exact ⟨⟨new, own.2, own.1, new, outer⟩, ⟨new, new, names⟩, own.1, new, inner⟩

end Lowering

end LispFront
