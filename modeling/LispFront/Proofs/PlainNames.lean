import LispFront.Analysis.Struct
import LispFront.Proofs.Outcome

/-! No binding form binds a name with a namespace: what a program may write there is checked, and
generated names have none. -/

namespace LispFront

def Symbol.Plain (symbol : Symbol) : Prop := symbol.name.ns = none

theorem Symbol.plain_iff {symbol : Symbol} : symbol.Plain ↔ symbol.isQualified = false :=
  (Option.isSome_eq_false_iff.trans Option.isNone_iff_eq_none).symm

theorem Symbol.name_eq_of_plain {first second : Symbol} (plain : first.Plain)
    (plainSecond : second.Plain) (bases : first.base = second.base) : first.name = second.name := by
  change Name.mk first.name.ns first.base = Name.mk second.name.ns second.base
  rw [plain, plainSecond, bases]

theorem Form.plainSymbol?_plain {form : Form} {symbol : Symbol}
    (found : form.plainSymbol? = some symbol) : symbol.Plain := by
  have plain := (Option.filter_eq_some_iff.mp found).2
  exact Symbol.plain_iff.mpr (Bool.not_eq_true' _ |>.mp plain)

theorem drawTemp_plain {span : Option Span} {symbol : Symbol} {n m : NameSupply}
    (run : Gives (NameSupply.drawTemp span) n symbol m) : symbol.Plain := by
  simp only [NameSupply.drawTemp, gives_bind, gives_draw, gives_pure] at run
  obtain ⟨_, _, ⟨rfl, _⟩, rfl, _⟩ := run
  rfl

namespace Pattern

variable {core : String} {n m : NameSupply} {flat : List (Symbol × Form)}

theorem unlessIgnored_plain {pattern : Form} {bindings : NameM (List (Symbol × Form))}
    (plain : ∀ {n flat m}, Gives bindings n flat m → ∀ pair ∈ flat, pair.1.Plain)
    (run : Gives (unlessIgnored pattern bindings) n flat m) : ∀ pair ∈ flat, pair.1.Plain := by
  unfold unlessIgnored at run
  split at run
  · obtain ⟨rfl, _⟩ := gives_pure.mp run
    simp
  · exact plain run

mutual
theorem lower_plain : ∀ (pattern value : Form) {n m : NameSupply} {flat : List (Symbol × Form)},
    Gives (lower core pattern value) n flat m → ∀ pair ∈ flat, pair.1.Plain
  | .symbol name span metadata, value, n, m, flat, run => by
    unfold lower at run
    split at run
    · exact (not_gives_throw run).elim
    next plain =>
      obtain ⟨rfl, _⟩ := gives_pure.mp run
      intro pair member
      obtain rfl := List.mem_singleton.mp member
      exact Symbol.plain_iff.mpr (Bool.eq_false_iff.mpr plain)
  | .vector items span metadata, value, n, m, flat, run => by
    unfold lower at run
    simp only [gives_bind, gives_pure] at run
    obtain ⟨whole, _, drawn, parts, _, lowered, rfl, _⟩ := run
    exact List.forall_mem_cons.mpr ⟨drawTemp_plain drawn, lowerItems_plain items lowered⟩
  | .map entries span metadata, value, n, m, flat, run => by
    unfold lower at run
    simp only [gives_bind, gives_pure] at run
    obtain ⟨whole, _, drawn, parts, _, lowered, rfl, _⟩ := run
    exact List.forall_mem_cons.mpr ⟨drawTemp_plain drawn, lowerEntries_plain entries lowered⟩
  | .nil, _, _, _, _, run => (not_gives_throw run).elim
  | .bool _, _, _, _, _, run => (not_gives_throw run).elim
  | .int _, _, _, _, _, run => (not_gives_throw run).elim
  | .float _, _, _, _, _, run => (not_gives_throw run).elim
  | .str _, _, _, _, _, run => (not_gives_throw run).elim
  | .keyword _, _, _, _, _, run => (not_gives_throw run).elim
  | .list .., _, _, _, _, run => (not_gives_throw run).elim

theorem lowerItems_plain : ∀ (items : List Form) {whole : Symbol} {span : Option Span}
    {index : Nat} {n m : NameSupply} {flat : List (Symbol × Form)},
    Gives (lowerItems core whole span index items) n flat m → ∀ pair ∈ flat, pair.1.Plain
  | [], _, _, _, _, _, _, run => by
    obtain ⟨rfl, _⟩ := gives_pure.mp run
    simp
  | item :: rest, _, _, _, _, _, _, run => by
    unfold lowerItems at run
    split at run
    · exact lowerRest_plain rest run
    · simp only [gives_bind, gives_pure] at run
      obtain ⟨here, _, first, there, _, later, rfl, _⟩ := run
      exact List.forall_mem_append.mpr
        ⟨unlessIgnored_plain (lower_plain item _) first, lowerItems_plain rest later⟩

theorem lowerRest_plain : ∀ (items : List Form) {whole : Symbol} {span : Option Span}
    {index : Nat} {n m : NameSupply} {flat : List (Symbol × Form)},
    Gives (lowerRest core whole span index items) n flat m → ∀ pair ∈ flat, pair.1.Plain
  | [], _, _, _, _, _, _, run => by
    obtain ⟨rfl, _⟩ := gives_pure.mp run
    simp
  | [pattern], _, _, _, _, _, _, run => unlessIgnored_plain (lower_plain pattern _) run
  | _ :: _ :: _, _, _, _, _, _, _, run => (not_gives_throw run).elim

theorem lowerEntries_plain : ∀ (entries : List (Form × Form)) {whole : Symbol}
    {span : Option Span} {n m : NameSupply} {flat : List (Symbol × Form)},
    Gives (lowerEntries core whole span entries) n flat m → ∀ pair ∈ flat, pair.1.Plain
  | [], _, _, _, _, _, run => by
    obtain ⟨rfl, _⟩ := gives_pure.mp run
    simp
  | (key, pattern) :: rest, _, _, _, _, _, run => by
    unfold lowerEntries at run
    simp only [gives_bind, gives_pure] at run
    obtain ⟨here, _, first, there, _, later, rfl, _⟩ := run
    exact List.forall_mem_append.mpr
      ⟨unlessIgnored_plain (lower_plain pattern _) first, lowerEntries_plain rest later⟩
end

theorem lowerPairs_plain {pairs : List (Form × Form)}
    (run : Gives (lowerPairs core pairs) n flat m) : ∀ pair ∈ flat, pair.1.Plain := by
  induction pairs generalizing n flat with
  | nil =>
    obtain ⟨rfl, _⟩ := gives_pure.mp run
    simp
  | cons pair rest ih =>
    simp only [lowerPairs, gives_bind, gives_pure] at run
    obtain ⟨here, _, first, there, _, later, rfl, rfl⟩ := run
    exact List.forall_mem_append.mpr ⟨lower_plain pair.1 pair.2 first, ih later⟩

theorem nameFor_plain {pattern : Form} {symbol : Symbol} {bindings : List Form}
    (run : Gives (nameFor pattern) n (symbol, bindings) m) : symbol.Plain := by
  unfold nameFor at run
  split at run
  next found =>
    obtain ⟨same, _⟩ := gives_pure.mp run
    obtain ⟨rfl, _⟩ := Prod.mk.inj same
    exact Form.plainSymbol?_plain found
  · simp only [gives_bind, gives_pure, Prod.mk.injEq] at run
    obtain ⟨temp, _, drawn, ⟨rfl, _⟩, _⟩ := run
    exact drawTemp_plain drawn

theorem nameForOption_plain {pattern : Option Form} {symbol : Option Symbol}
    {bindings : List Form} (run : Gives (nameForOption pattern) n (symbol, bindings) m) :
    ∀ name ∈ symbol.toList, name.Plain := by
  cases pattern with
  | none =>
    obtain ⟨same, _⟩ := gives_pure.mp run
    obtain ⟨rfl, _⟩ := Prod.mk.inj same
    simp
  | some pattern =>
    simp only [nameForOption, gives_bind, gives_pure, Prod.mk.injEq] at run
    obtain ⟨⟨name, here⟩, _, named, ⟨rfl, _⟩, _⟩ := run
    simpa using nameFor_plain named

end Pattern

namespace Parameters

variable {n m : NameSupply}

theorem nameAll_plain {items : List Form} {symbols : List Symbol} {bindings : List Form}
    (run : Gives (nameAll items) n (symbols, bindings) m) : ∀ symbol ∈ symbols, symbol.Plain := by
  induction items generalizing n symbols bindings with
  | nil =>
    obtain ⟨same, _⟩ := gives_pure.mp run
    obtain ⟨rfl, _⟩ := Prod.mk.inj same
    simp
  | cons pattern rest ih =>
    simp only [nameAll, gives_bind, gives_pure, Prod.mk.injEq] at run
    obtain ⟨⟨symbol, here⟩, _, named, ⟨symbols, there⟩, _, later, ⟨rfl, _⟩, rfl⟩ := run
    exact List.forall_mem_cons.mpr ⟨Pattern.nameFor_plain named, ih later⟩

theorem nameRest_plain {items : List Form} {span : Option Span} {symbol : Symbol}
    {bindings : List Form} (run : Gives (nameRest items span) n (symbol, bindings) m) :
    symbol.Plain := by
  unfold nameRest at run
  split at run
  · simp only [gives_bind, gives_pure, Prod.mk.injEq] at run
    obtain ⟨temp, _, drawn, ⟨rfl, _⟩, _⟩ := run
    exact drawTemp_plain drawn
  · exact Pattern.nameFor_plain run
  · simp only [gives_bind, not_gives_throw, and_false, exists_false] at run

theorem lower_plain {items : List Form} {span : Option Span} {params : Parameters}
    (run : Gives (lower items span) n params m) : ∀ symbol ∈ params.symbols, symbol.Plain := by
  simp only [lower, gives_bind] at run
  obtain ⟨⟨symbols, bindings⟩, _, named, run⟩ := run
  dsimp only at run
  split at run
  · obtain ⟨rfl, _⟩ := gives_pure.mp run
    exact nameAll_plain named
  · simp only [gives_bind, gives_pure] at run
    obtain ⟨⟨rest, restBindings⟩, _, last, rfl, _⟩ := run
    have alone : ∀ symbol ∈ [rest], symbol.Plain := by simpa using nameRest_plain last
    exact List.forall_mem_append.mpr ⟨nameAll_plain named, alone⟩

end Parameters

theorem simplePairs_plain (pairs : List (Form × Form)) :
    ∀ pair ∈ Binder.simplePairs pairs, pair.1.Plain := by
  intro pair member
  obtain ⟨⟨pattern, init⟩, _, found⟩ := List.mem_filterMap.mp member
  obtain ⟨symbol, plain, rfl⟩ := Option.map_eq_some_iff.mp found
  exact Form.plainSymbol?_plain plain

theorem plainSymbols_plain {fault : Fault} {forms : List Form} {symbols : List Symbol}
    (read : plainSymbols fault forms = .ok symbols) : ∀ symbol ∈ symbols, symbol.Plain := by
  induction forms generalizing symbols with
  | nil =>
    obtain rfl := Except.ok.inj read
    simp
  | cons form rest ih =>
    unfold plainSymbols at read
    split at read
    next symbol found =>
      match more : plainSymbols fault rest with
      | .ok others =>
        rw [more] at read
        obtain rfl := Except.ok.inj read
        exact List.forall_mem_cons.mpr ⟨Form.plainSymbol?_plain found, ih more⟩
      | .error error =>
        rw [more] at read
        contradiction
    · contradiction

theorem Struct.fields_plain {args : List Form} {span : Option Span} {symbols : List Symbol}
    (read : Struct.fields args span = .ok symbols) : ∀ symbol ∈ symbols, symbol.Plain := by
  unfold Struct.fields at read
  split at read
  · exact plainSymbols_plain read
  · contradiction

end LispFront
