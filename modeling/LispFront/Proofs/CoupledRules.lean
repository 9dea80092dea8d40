import LispFront.Proofs.CoupledLowering

/-! Rule by rule, the two runs visit corresponding forms in corresponding scopes (`Twinned`) and
build trees of the same outline. The rules for the special forms are told their arguments by the
input; only `let` and `loop` also meet forms that lowering has made. -/

namespace LispFront

variable {α β γ δ : Type}

namespace Renumbering

variable {two : Renumbering} {log later : List Draw} {known after : Nat → Prop}
variable {V : List Draw → α → β → Prop} {W : List Draw → γ → δ → Prop}

section Steps

theorem bind_ok {a : α} {b : β} {f : α → AnalyzeM γ} {g : β → AnalyzeM δ}
    (rest : Coupled two.States W log (f a) (g b)) :
    Coupled two.States W log (AnalyzeM.ofExcept (.ok a) >>= f)
      (AnalyzeM.ofExcept (.ok b) >>= g) := by
  intro s t states
  rw [bind_of_ok (gives_ofExcept.mpr ⟨rfl, rfl⟩), bind_of_ok (gives_ofExcept.mpr ⟨rfl, rfl⟩)]
  exact rest s t states

theorem bind_ofExcept {result : Except AnalysisError α} {f : α → AnalyzeM γ} {g : α → AnalyzeM δ}
    (rest : ∀ a, result = .ok a → Coupled two.States W log (f a) (g a)) :
    Coupled two.States W log (AnalyzeM.ofExcept result >>= f)
      (AnalyzeM.ofExcept result >>= g) := by
  cases result with
  | ok a => exact bind_ok (rest a rfl)
  | error error =>
    intro s t states
    rw [bind_of_error (fails_ofExcept.mpr ⟨rfl, rfl⟩),
      bind_of_error (fails_ofExcept.mpr ⟨rfl, rfl⟩)]
    exact .error (List.prefix_refl log) states

theorem bind_registry {f : Registry → AnalyzeM γ} {g : Registry → AnalyzeM δ}
    (rest : ∀ registry, Coupled two.States W log (f registry) (g registry)) :
    Coupled two.States W log (AnalyzeM.registry >>= f) (AnalyzeM.registry >>= g) := by
  intro s t states
  rw [bind_of_ok (gives_registry.mpr ⟨rfl, rfl⟩), bind_of_ok (gives_registry.mpr ⟨rfl, rfl⟩),
    states.registry]
  exact rest t.registry s t states

theorem coupled_changeRegistry {change : Registry → Registry} :
    Coupled two.States (fun _ _ _ => True) log (AnalyzeM.changeRegistry change)
      (AnalyzeM.changeRegistry change) := by
  intro s t states
  exact .ok (List.prefix_refl log) ⟨states.names, congrArg change states.registry⟩ trivial

theorem coupled_define {name : Symbol} {metadata : Entries} :
    Coupled two.States (fun _ => Eq) log (AnalyzeM.define name metadata)
      (AnalyzeM.define name metadata) := by
  apply bind_registry
  intro registry
  split
  · exact coupled_changeRegistry.bind fun _ _ => .pure rfl
  · exact .throw

theorem coupled_onFailure {undo : Registry → Registry} {x : AnalyzeM α} {y : AnalyzeM β}
    (inside : Coupled two.States V log x y) :
    Coupled two.States V log (AnalyzeM.onFailure undo x) (AnalyzeM.onFailure undo y) := by
  intro s t states
  have outcomes := inside s t states
  unfold AnalyzeM.onFailure
  rcases left : x s with ⟨outcome, u⟩
  rcases right : y t with ⟨other, v⟩
  rw [left, right] at outcomes
  cases outcomes with
  | ok grown states values => exact .ok grown states values
  | error grown states => exact .error grown ⟨states.names, congrArg undo states.registry⟩

theorem coupled_newFrame {params others : List Symbol} (sizes : params.length = others.length) :
    Coupled two.States (fun _ first second => first.params.length = second.params.length) log
      (AnalyzeM.newFrame params) (AnalyzeM.newFrame others) := by
  intro s t states
  exact .ok (List.prefix_refl log) ⟨states.names, states.registry⟩ sizes

theorem coupled_activate {first second : Frame} :
    Coupled two.States (fun _ _ _ => True) log (AnalyzeM.activate first)
      (AnalyzeM.activate second) := by
  intro s t states
  exact .ok (List.prefix_refl log) ⟨states.names, states.registry⟩ trivial

end Steps

section Symbols

variable {a b : Scope} {settings : Settings} {symbol other : Symbol}

/-- Two symbols are the same variable, or both are local. -/
def Variables (two : Renumbering) (log : List Draw) (first second : Node) : Prop :=
  two.Trees log first second ∧
    (first.shape = second.shape ∨ ∃ name shadow name' shadow',
      first.shape = .localVar name shadow ∧ second.shape = .localVar name' shadow')

theorem variables_local {span : Option Span} (scopes : two.Scopes known a b)
    {shadow hidden : Option Symbol} :
    two.Variables log (.mk a span (.localVar symbol shadow))
      (.mk b span (.localVar other hidden)) :=
  ⟨.node scopes rfl .nil (List.forall_mem_nil _), .inr ⟨_, _, _, _, rfl, rfl⟩⟩

/-- A symbol that is local in both scopes or in none of them. -/
theorem coupled_analyzeSymbol (scopes : two.Scopes known a b)
    (same : Resolve.isLocal a symbol = Resolve.isLocal b symbol) :
    Coupled two.States two.Variables log (analyzeSymbol settings symbol a)
      (analyzeSymbol settings symbol b) := by
  have leaf (shape : Shape Node) (childless : shape.children = []) (unbound : shape.bound = []) :
      two.Variables log (.mk a symbol.span shape) (.mk b symbol.span shape) := by
    refine ⟨.node scopes rfl ?_ ?_, .inl rfl⟩
    · rw [childless]
      exact .nil
    · rw [unbound]
      exact List.forall_mem_nil _
  apply bind_registry
  intro registry
  unfold Resolve.shape
  rw [same]
  split
  next shape found =>
    refine bind_ok (.pure (leaf shape ?_ ?_)) <;>
      · unfold Resolve.host? at found
        split at found <;> split at found <;> cases found <;> rfl
  · split
    · exact bind_ok (.pure (variables_local scopes))
    · split
      · exact bind_ok (.pure (leaf _ rfl rfl))
      · split
        · exact bind_ofExcept fun _ failed => by contradiction
        · exact bind_ok (.pure (leaf _ rfl rfl))
        · exact bind_ofExcept fun _ failed => by contradiction

theorem own_symbol {form : Form} (avoids : form.Avoids two.reserved)
    (found : form.symbol? = some symbol) : two.reserved symbol.name = false := by
  cases form with
  | symbol name span metadata =>
    obtain rfl := Option.some.inj found
    exact (Form.avoids_symbol.mp avoids).1
  | _ => contradiction

theorem Scopes.isLocal_qualified (qualified : symbol.isQualified = true) :
    Resolve.isLocal a symbol = Resolve.isLocal b symbol := by
  rw [Resolve.isLocal, Resolve.isLocal, qualified]
  rfl

theorem shape_temp {supply : NameSupply} {index : Nat} {span : Option Span} {core : String}
    {registry : Registry} {scope : Scope}
    (isLocal : Resolve.isLocal scope (supply.temp index span) = true) :
    (Resolve.shape core registry scope (supply.temp index span) : Except _ (Shape Node)) =
      .ok (.localVar (supply.temp index span) (scope.shadow? (supply.temp index span))) := by
  have plain : (Resolve.host? (supply.temp index span) : Option (Shape Node)) = none := by
    simp [Resolve.host?, Resolve.isClassName, NameSupply.temp, NameSupply.numbered,
      NameSupply.tempStem, Symbol.ns, Symbol.base, Symbol.plain, Name.plain]
  unfold Resolve.shape
  rw [plain, isLocal]
  rfl

end Symbols

/-- Corresponding forms in corresponding scopes give corresponding trees. -/
def Twinned (two : Renumbering) (visit : Visit) : Prop :=
  ∀ {log : List Draw} {known : Nat → Prop} {form other : Form} {a b : Scope},
    two.Twin log known form other → two.Scopes known a b →
    Coupled two.States two.Trees log (visit form a) (visit other b)

theorem twins_own {forms : List Form} (avoid : ∀ form ∈ forms, form.Avoids two.reserved) :
    List.Forall₂ (two.Twin log known) forms forms :=
  List.forall₂_same.mpr fun form member => .own (avoid form member)

/-- All forms but the last, and the last. -/
theorem twins_body {forms others : List Form}
    (twins : List.Forall₂ (two.Twin log known) forms others) :
    List.Forall₂ (two.Twin log known) forms.dropLast others.dropLast ∧
    two.Twin log known (forms.getLastD .nil) (others.getLastD .nil) := by
  induction twins with
  | nil => exact ⟨.nil, .own rfl⟩
  | cons first rest ih =>
    cases rest with
    | nil => exact ⟨.nil, first⟩
    | cons second rest => exact ⟨.cons first ih.1, ih.2⟩

/-- A body with the bindings of its patterns in front. -/
theorem twins_bindAround {pairs others : List (Form × Form)} {body : List Form}
    {span : Option Span} (header : two.Patterns log known pairs others known)
    (avoid : ∀ form ∈ body, form.Avoids two.reserved) :
    List.Forall₂ (two.Twin log known)
      (Pattern.bindAround (Binder.flatten pairs) body span)
      (Pattern.bindAround (Binder.flatten others) body span) := by
  have whole : two.Twin log known (.binder .letIn pairs body span)
      (.binder .letIn others body span) := .around (.inl rfl) header avoid
  cases header with
  | nil => exact twins_own avoid
  | own => exact .cons whole .nil
  | temp => exact .cons whole .nil

section Rules

variable {visit : Visit} (visits : two.Twinned visit)
variable {a b : Scope} {span : Option Span} {args forms others : List Form}

include visits

theorem coupled_visitAll (twins : List.Forall₂ (two.Twin log known) forms others)
    (scopes : two.Scopes known a b) :
    Coupled two.States (fun later => List.Forall₂ (two.Trees later)) log
      (visitAll visit a forms) (visitAll visit b others) := by
  induction forms generalizing log others with
  | nil =>
    cases twins
    exact .pure .nil
  | cons form rest ih =>
    cases twins with
    | cons twin twins =>
      refine (visits twin scopes).bind fun grown tree => ?_
      refine (ih (twins.imp fun _ _ twin => twin.grow grown)).bind fun more trees => ?_
      exact .pure (.cons (tree.grow more) trees)

theorem coupled_visitOwn (avoid : ∀ form ∈ forms, form.Avoids two.reserved)
    (scopes : two.Scopes known a b) :
    Coupled two.States (fun later => List.Forall₂ (two.Trees later)) log
      (visitAll visit a forms) (visitAll visit b forms) :=
  coupled_visitAll visits (twins_own avoid) scopes

theorem coupled_visitEntries {entries : Entries} (avoid : Entries.Avoids two.reserved entries)
    (scopes : two.Scopes known a b) :
    Coupled two.States
      (fun later first second => List.Forall₂ (two.Trees later)
        (first.flatMap fun entry => [entry.1, entry.2])
        (second.flatMap fun entry => [entry.1, entry.2])) log
      (visitEntries visit a entries) (visitEntries visit b entries) := by
  induction entries generalizing log with
  | nil => exact .pure .nil
  | cons entry rest ih =>
    obtain ⟨⟨keyAvoids, valueAvoids⟩, others⟩ := List.forall_mem_cons.mp avoid
    refine (visits (.own keyAvoids) scopes).bind fun _ key => ?_
    refine (visits (.own valueAvoids) scopes).bind fun more value => ?_
    refine (ih others).bind fun last trees => ?_
    exact .pure (.cons ((key.grow more).grow last) (.cons (value.grow last) trees))

theorem coupled_analyzeBody (twins : List.Forall₂ (two.Twin log known) forms others)
    (scopes : two.Scopes known a b) :
    Coupled two.States two.Trees log (analyzeBody visit forms span a)
      (analyzeBody visit others span b) := by
  obtain ⟨early, last⟩ := twins_body twins
  refine (coupled_visitAll visits early scopes.effect).bind fun grown trees => ?_
  refine (visits (last.grow grown) scopes).bind fun more tree => ?_
  have children := List.rel_append (Trees.grow_all more trees) (.cons tree .nil)
  exact .pure (.node scopes rfl children (List.forall_mem_nil _))

theorem coupled_ownBody (avoid : ∀ form ∈ forms, form.Avoids two.reserved)
    (scopes : two.Scopes known a b) :
    Coupled two.States two.Trees log (analyzeBody visit forms span a)
      (analyzeBody visit forms span b) :=
  coupled_analyzeBody visits (twins_own avoid) scopes

/-- Bindings and the scope behind them. -/
structure Bindings (two : Renumbering) (after : Nat → Prop) (log : List Draw)
    (first second : List (Binding Node) × Scope) : Prop where
  trees : List.Forall₂ (two.Trees log) (first.1.map Binding.init) (second.1.map Binding.init)
  accounts : ∀ bound ∈ first.1.map Binding.bound, two.Accounts log bound
  scopes : two.Scopes after first.2 second.2

theorem coupled_binding {symbol other : Symbol} {value init : Form} {fresh : List Nat}
    {pairs rest : List (Symbol × Form)} (binders : two.Binders log fresh [symbol] [other])
    (values : two.Value known value init) (scopes : two.Scopes known a b)
    (next : ∀ {later c d}, log <+: later → two.Scopes (fun i => i ∈ fresh ∨ known i) c d →
      Coupled two.States (two.Bindings after) later (Binder.bindAll visit pairs c)
        (Binder.bindAll visit rest d)) :
    Coupled two.States (two.Bindings after) log (Binder.bindAll visit ((symbol, value) :: pairs) a)
      (Binder.bindAll visit ((other, init) :: rest) b) := by
  refine (coupled_ofNames coupled_draw).bind fun {_ shadow hidden} grown _ => ?_
  refine (visits (.value values) (scopes.argument.labelled _ _)).bind
    fun {_ first second} more tree => ?_
  have behind := (scopes.extend binders :
    two.Scopes _ (a.extend { scope := a, symbol, shadow, init := first, span := none })
      (b.extend { scope := b, symbol := other, shadow := hidden, init := second, span := none }))
  refine (next (grown.trans more) behind).bind fun last bindings => ?_
  have grown := (grown.trans more).trans last
  have name := (binders.accounts symbol List.mem_cons_self).grow grown
  exact .pure ⟨.cons (tree.grow last) bindings.trees,
    List.forall_mem_cons.mpr ⟨name, bindings.accounts⟩, bindings.scopes⟩

theorem coupled_bindAll {pairs others : List (Symbol × Form)}
    (header : two.Plain log known pairs others after) (scopes : two.Scopes known a b) :
    Coupled two.States (two.Bindings after) log (Binder.bindAll visit pairs a)
      (Binder.bindAll visit others b) := by
  induction pairs generalizing log known others a b after with
  | nil =>
    cases header
    exact .pure ⟨.nil, List.forall_mem_nil _, scopes⟩
  | cons pair rest ih =>
    cases header with
    | own isOwn values rest =>
      refine coupled_binding visits (.own isOwn .nil) values scopes fun grown behind => ?_
      exact ih (rest.grow grown) (behind.mono fun _ isKnown => .inr isKnown)
    | temp drawn values rest =>
      refine coupled_binding visits (.temp drawn .nil) values scopes fun grown behind => ?_
      refine ih (rest.grow grown) (behind.mono fun i isKnown => ?_)
      exact isKnown.imp_left List.mem_singleton.mpr

theorem coupled_analyzeLet {settings : Settings} (core : settings.coreNamespace = two.core)
    {pairs flat : List (Form × Form)} {body rest : List Form}
    (left : Binder.header .letIn args span = .ok (pairs, body))
    (right : Binder.header .letIn others span = .ok (flat, rest))
    (header : two.Patterns log known pairs flat after)
    (bodies : List.Forall₂ (two.Twin log after) body rest) (scopes : two.Scopes known a b) :
    Coupled two.States two.Trees log (analyzeLet settings visit args span a)
      (analyzeLet settings visit others span b) := by
  unfold analyzeLet
  rw [left, right, core]
  apply bind_ok
  refine (coupled_ofNames (coupled_lowerPairs header)).bind fun grown lowered => ?_
  obtain ⟨_, plain, wider⟩ := lowered
  refine (coupled_bindAll visits plain scopes.returning).bind fun more bindings => ?_
  have bodies := bodies.imp fun _ _ twin => (twin.grow (grown.trans more)).mono wider
  refine (coupled_analyzeBody visits bodies bindings.scopes).bind fun last tree => ?_
  have children := List.rel_append (Trees.grow_all last bindings.trees) (.cons tree .nil)
  exact .pure (.node scopes rfl children fun bound member =>
    (bindings.accounts bound member).grow last)

omit visits in
theorem plainSymbol?_temp {supply : NameSupply} {index : Nat} {place : Option Span} :
    (supply.temp index place).form.plainSymbol? = some (supply.temp index place) := rfl

omit visits in
/-- Patterns that are plain symbols are bound as they stand. -/
theorem Header.simple {pairs others : List (Form × Form)}
    (header : two.Patterns log known pairs others after)
    (simple : (pairs.all fun pair => Pattern.isSimple pair.1) = true) :
    (others.all fun pair => Pattern.isSimple pair.1) = true ∧
    two.Plain log known (Binder.simplePairs pairs) (Binder.simplePairs others) after := by
  induction header with
  | nil => exact ⟨rfl, .nil⟩
  | @own _ _ place _ _ _ _ isOwn values _ ih =>
    simp only [List.all_cons, Bool.and_eq_true] at simple ⊢
    obtain ⟨symbol, found⟩ := Option.isSome_iff_exists.mp simple.1
    obtain ⟨rest, plain⟩ := ih simple.2
    have isOwn := Form.avoids_symbol.mp (Form.plainSymbol?_eq_some found ▸ isOwn)
    refine ⟨⟨simple.1, rest⟩, ?_⟩
    simp only [Binder.simplePairs, List.filterMap_cons, found, Option.map_some]
    exact .own isOwn.1 values plain
  | temp drawn values _ ih =>
    simp only [List.all_cons, Bool.and_eq_true] at simple ⊢
    obtain ⟨rest, plain⟩ := ih simple.2
    refine ⟨⟨rfl, rest⟩, ?_⟩
    simp only [Binder.simplePairs, List.filterMap_cons, plainSymbol?_temp, Option.map_some]
    exact .temp drawn values plain

theorem coupled_analyzeLoop {pairs flat : List (Form × Form)} {body rest : List Form}
    (left : Binder.header .loop args span = .ok (pairs, body))
    (right : Binder.header .loop others span = .ok (flat, rest))
    (simple : (pairs.all fun pair => Pattern.isSimple pair.1) = true)
    (header : two.Patterns log known pairs flat after)
    (bodies : List.Forall₂ (two.Twin log after) body rest) (scopes : two.Scopes known a b) :
    Coupled two.States two.Trees log (analyzeLoop visit args span a)
      (analyzeLoop visit others span b) := by
  obtain ⟨otherSimple, plain⟩ := header.simple simple
  have sizes : ((Binder.simplePairs pairs).map Prod.fst).length =
      ((Binder.simplePairs flat).map Prod.fst).length := by
    rw [List.length_map, List.length_map, plain.length_eq]
  unfold analyzeLoop
  rw [left, right]
  apply bind_ok
  dsimp only
  rw [if_pos simple, if_pos otherSimple]
  refine (coupled_newFrame sizes).bind fun grown frames => ?_
  refine (coupled_bindAll visits (plain.grow grown) scopes.returning).bind fun more bindings => ?_
  have bodies := bodies.imp fun _ _ twin => twin.grow (grown.trans more)
  refine (coupled_analyzeBody visits bodies (bindings.scopes.enter frames)).bind
    fun last tree => ?_
  have children := List.rel_append (Trees.grow_all last bindings.trees) (.cons tree .nil)
  exact .pure (.node scopes rfl children fun bound member =>
    (bindings.accounts bound member).grow last)

omit visits in
/-- The pairs of a binding vector of the input. -/
theorem patterns_own {pairs : List (Form × Form)} (avoid : Entries.Avoids two.reserved pairs) :
    two.Patterns log known pairs pairs known := by
  induction pairs with
  | nil => exact .nil
  | cons pair rest ih =>
    obtain ⟨⟨place, value⟩, others⟩ := List.forall_mem_cons.mp avoid
    exact .own place (.atom (.own value)) (ih others)

omit visits in
theorem header_avoids {special : SpecialForm} {pairs : List (Form × Form)} {body : List Form}
    (avoid : ∀ arg ∈ args, arg.Avoids two.reserved)
    (read : Binder.header special args span = .ok (pairs, body)) :
    Entries.Avoids two.reserved pairs ∧ ∀ form ∈ body, form.Avoids two.reserved := by
  obtain ⟨items, _, _, rfl, paired⟩ := Binder.header_eq_ok read
  obtain ⟨vector, bodyAvoids⟩ := List.forall_mem_cons.mp avoid
  exact ⟨Binder.pairs?_all (Form.avoids_vector.mp vector).1 paired, bodyAvoids⟩

/-- A loop of the input may have patterns. -/
theorem coupled_ownLoop (avoid : ∀ arg ∈ args, arg.Avoids two.reserved)
    (scopes : two.Scopes known a b) :
    Coupled two.States two.Trees log (analyzeLoop visit args span a)
      (analyzeLoop visit args span b) := by
  cases read : Binder.header .loop args span with
  | error error =>
    unfold analyzeLoop
    rw [read]
    exact bind_ofExcept fun _ impossible => by contradiction
  | ok header =>
    obtain ⟨pairs, body⟩ := header
    obtain ⟨pairsAvoid, bodyAvoids⟩ := header_avoids avoid read
    by_cases simple : (pairs.all fun pair => Pattern.isSimple pair.1) = true
    · exact coupled_analyzeLoop visits read read simple (patterns_own pairsAvoid)
        (twins_own bodyAvoids) scopes
    · unfold analyzeLoop
      rw [read]
      apply bind_ok
      dsimp only
      rw [if_neg simple, if_neg simple]
      exact (coupled_ofNames (coupled_lowerLoop known pairsAvoid bodyAvoids)).bind
        fun _ twin => visits twin scopes

theorem coupled_ownLet {settings : Settings} (core : settings.coreNamespace = two.core)
    (avoid : ∀ arg ∈ args, arg.Avoids two.reserved) (scopes : two.Scopes known a b) :
    Coupled two.States two.Trees log (analyzeLet settings visit args span a)
      (analyzeLet settings visit args span b) := by
  cases read : Binder.header .letIn args span with
  | error error =>
    unfold analyzeLet
    rw [read]
    exact bind_ofExcept fun _ impossible => by contradiction
  | ok header =>
    obtain ⟨pairs, body⟩ := header
    obtain ⟨pairsAvoid, bodyAvoids⟩ := header_avoids avoid read
    exact coupled_analyzeLet visits core read read (patterns_own pairsAvoid)
      (twins_own bodyAvoids) scopes

/-- Bodies of functions. -/
structure Lambdas (two : Renumbering) (log : List Draw) (first second : Lambda Node) : Prop where
  trees : two.Trees log first.body second.body
  accounts : ∀ bound ∈ first.params.map BoundName.written, two.Accounts log bound

theorem coupled_analyzeLambda (avoid : ∀ arg ∈ args, arg.Avoids two.reserved)
    (scopes : two.Scopes known a b) :
    Coupled two.States two.Lambdas log (analyzeLambda visit args span a)
      (analyzeLambda visit args span b) := by
  unfold analyzeLambda
  split
  · exact .throw
  next items vectorSpan _ body =>
    obtain ⟨vector, bodyAvoids⟩ := List.forall_mem_cons.mp avoid
    have itemsAvoid := (Form.avoids_vector.mp vector).1
    refine (coupled_ofNames (coupled_lowerParameters itemsAvoid)).bind fun _ renamed => ?_
    obtain ⟨fresh, pairs, rest, binders, left, right, header⟩ := renamed
    refine (coupled_newFrame binders.length_eq).bind fun grown frames => ?_
    rw [left, right]
    have header := (header (fun i => i ∈ fresh ∨ known i) fun i listed => .inl listed).grow grown
    have inside := ((scopes.introduce binders).withContext .result).enter frames
    refine (coupled_analyzeBody visits (twins_bindAround header bodyAvoids) inside).bind
      fun last tree => ?_
    refine .pure ⟨tree, List.forall_mem_map.mpr fun param member => ?_⟩
    exact (binders.accounts param member).grow (grown.trans last)
  · exact .throw

theorem coupled_analyzeFn (avoid : ∀ arg ∈ args, arg.Avoids two.reserved)
    (scopes : two.Scopes known a b) :
    Coupled two.States two.Trees log (analyzeFn visit args span a)
      (analyzeFn visit args span b) := by
  refine (coupled_analyzeLambda visits avoid scopes).bind fun _ lambdas => ?_
  exact .pure (.node scopes rfl (.cons lambdas.trees .nil) lambdas.accounts)

theorem coupled_analyzeRecur (avoid : ∀ arg ∈ args, arg.Avoids two.reserved)
    (scopes : two.Scopes known a b) :
    Coupled two.States two.Trees log (analyzeRecur visit args span a)
      (analyzeRecur visit args span b) := by
  have frames := scopes.frame
  unfold analyzeRecur
  cases first : a.frame with
  | none =>
    cases second : b.frame with
    | none => exact .throw
    | some _ =>
      rw [first, second] at frames
      contradiction
  | some frame =>
    cases second : b.frame with
    | none =>
      rw [first, second] at frames
      contradiction
    | some other =>
      rw [first, second] at frames
      -- Parameters may be called by different fresh names; `recur` only counts them.
      have sizes : frame.params.length = other.params.length := Option.some.inj frames
      dsimp only
      rw [sizes]
      split
      · refine coupled_activate.bind fun _ _ => ?_
        refine (coupled_visitOwn visits avoid scopes.argument).bind fun _ trees => ?_
        exact .pure (.node scopes rfl trees (List.forall_mem_nil _))
      · exact .throw

theorem coupled_analyzeEach {key : Option Form} {value coll : Form} {body : List Form}
    (keyAvoids : ∀ form, key = some form → form.Avoids two.reserved)
    (valueAvoids : value.Avoids two.reserved) (collAvoids : coll.Avoids two.reserved)
    (bodyAvoids : ∀ form ∈ body, form.Avoids two.reserved) (scopes : two.Scopes known a b) :
    Coupled two.States two.Trees log (analyzeEach visit key value coll body span a)
      (analyzeEach visit key value coll body span b) := by
  refine (visits (.own collAvoids) scopes.argument).bind fun _ coll => ?_
  refine (coupled_ofNames (coupled_nameFor valueAvoids)).bind fun grown here => ?_
  refine (coupled_ofNames (coupled_nameForOption keyAvoids)).bind fun more there => ?_
  obtain ⟨fresh, pairs, rest, binders, left, right, header⟩ := here.append more there
  dsimp only
  rw [left, right]
  have header := header (fun i => i ∈ fresh ∨ known i) fun i listed => .inl listed
  have inside := (scopes.introduce binders).effect
  refine (coupled_analyzeBody visits (twins_bindAround header bodyAvoids) inside).bind
    fun last tree => ?_
  have coll := ((coll.grow grown).grow more).grow last
  refine .pure (.node scopes rfl (.cons coll (.cons tree .nil)) ?_)
  exact List.forall_mem_map.mpr fun name member => (binders.accounts name member).grow last

theorem coupled_analyzeForeach (avoid : ∀ arg ∈ args, arg.Avoids two.reserved)
    (scopes : two.Scopes known a b) :
    Coupled two.States two.Trees log (analyzeForeach visit args span a)
      (analyzeForeach visit args span b) := by
  unfold analyzeForeach
  split
  · exact .throw
  · obtain ⟨vector, bodyAvoids⟩ := List.forall_mem_cons.mp avoid
    have items := (Form.avoids_vector.mp vector).1
    simp only [List.forall_mem_cons] at items
    exact coupled_analyzeEach visits (fun _ missing => by contradiction) items.1 items.2.1
      bodyAvoids scopes
  next key value coll _ _ body =>
    obtain ⟨vector, bodyAvoids⟩ := List.forall_mem_cons.mp avoid
    have items := (Form.avoids_vector.mp vector).1
    simp only [List.forall_mem_cons] at items
    have key (form : Form) (given : some key = some form) : form.Avoids two.reserved :=
      Option.some.inj given ▸ items.1
    exact coupled_analyzeEach visits key items.2.1 items.2.2.1 bodyAvoids scopes
  · exact .throw
  · exact .throw

theorem coupled_analyzeChoice {test yes no : Form} (testAvoids : test.Avoids two.reserved)
    (yesAvoids : yes.Avoids two.reserved) (noAvoids : no.Avoids two.reserved)
    (scopes : two.Scopes known a b) :
    Coupled two.States two.Trees log (analyzeChoice visit test yes no span a)
      (analyzeChoice visit test yes no span b) := by
  refine (visits (.own testAvoids) scopes.argument).bind fun _ test => ?_
  refine (visits (.own yesAvoids) scopes).bind fun more yes => ?_
  refine (visits (.own noAvoids) scopes).bind fun last no => ?_
  have children := List.Forall₂.cons ((test.grow more).grow last)
    (.cons (yes.grow last) (.cons no .nil))
  exact .pure (.node scopes rfl children (List.forall_mem_nil _))

theorem coupled_analyzeBranch (avoid : ∀ arg ∈ args, arg.Avoids two.reserved)
    (scopes : two.Scopes known a b) :
    Coupled two.States two.Trees log (analyzeBranch visit args span a)
      (analyzeBranch visit args span b) := by
  unfold analyzeBranch
  split
  · simp only [List.forall_mem_cons] at avoid
    exact coupled_analyzeChoice visits avoid.1 avoid.2.1 rfl scopes
  · simp only [List.forall_mem_cons] at avoid
    exact coupled_analyzeChoice visits avoid.1 avoid.2.1 avoid.2.2.1 scopes
  · exact .throw

theorem coupled_analyzeThrow (avoid : ∀ arg ∈ args, arg.Avoids two.reserved)
    (scopes : two.Scopes known a b) :
    Coupled two.States two.Trees log (analyzeThrow visit args span a)
      (analyzeThrow visit args span b) := by
  unfold analyzeThrow
  split
  · refine (visits (.own (avoid _ List.mem_cons_self)) scopes.argument).bind fun _ tree => ?_
    exact .pure (.node scopes rfl (.cons tree .nil) (List.forall_mem_nil _))
  · exact .throw

/-- A form and further ones behind it, all of them arguments. -/
theorem coupled_headed {head : Form} {shape : Node → List Node → Shape Node}
    (headAvoids : head.Avoids two.reserved) (avoid : ∀ arg ∈ args, arg.Avoids two.reserved)
    (kind : ∀ node nodes node' nodes', (shape node nodes).kindName = (shape node' nodes').kindName)
    (children : ∀ node nodes, (shape node nodes).children = node :: nodes)
    (unbound : ∀ node nodes, (shape node nodes).bound = []) (scopes : two.Scopes known a b) :
    Coupled two.States two.Trees log
      (do
        let node ← visit head a.argument
        let nodes ← visitAll visit a.argument args
        pure (.mk a span (shape node nodes)))
      (do
        let node ← visit head b.argument
        let nodes ← visitAll visit b.argument args
        pure (.mk b span (shape node nodes))) := by
  refine (visits (.own headAvoids) scopes.argument).bind fun _ tree => ?_
  refine (coupled_visitOwn visits avoid scopes.argument).bind fun more trees => ?_
  refine .pure (.node scopes (kind _ _ _ _) ?_ ?_)
  · rw [children, children]
    exact .cons (tree.grow more) trees
  · rw [unbound]
    exact List.forall_mem_nil _

theorem coupled_analyzeApply (avoid : ∀ arg ∈ args, arg.Avoids two.reserved)
    (scopes : two.Scopes known a b) :
    Coupled two.States two.Trees log (analyzeApply visit args span a)
      (analyzeApply visit args span b) := by
  unfold analyzeApply
  split
  · obtain ⟨callee, rest⟩ := List.forall_mem_cons.mp avoid
    exact coupled_headed visits callee rest (fun _ _ _ _ => rfl) (fun _ _ => rfl)
      (fun _ _ => rfl) scopes
  · exact .throw

theorem coupled_analyzeHostNew (avoid : ∀ arg ∈ args, arg.Avoids two.reserved)
    (scopes : two.Scopes known a b) :
    Coupled two.States two.Trees log (analyzeHostNew visit args span a)
      (analyzeHostNew visit args span b) := by
  unfold analyzeHostNew
  split
  · exact .throw
  · obtain ⟨cls, rest⟩ := List.forall_mem_cons.mp avoid
    exact coupled_headed visits cls rest (fun _ _ _ _ => rfl) (fun _ _ => rfl)
      (fun _ _ => rfl) scopes

theorem coupled_analyzeHostMember {form : SpecialForm} {static : Bool}
    (avoid : ∀ arg ∈ args, arg.Avoids two.reserved) (scopes : two.Scopes known a b) :
    Coupled two.States two.Trees log (analyzeHostMember form static visit args span a)
      (analyzeHostMember form static visit args span b) := by
  unfold analyzeHostMember
  split
  next target member =>
    simp only [List.forall_mem_cons] at avoid
    refine (visits (.own avoid.1) scopes.argument).bind fun _ tree => ?_
    split
    next items _ _ =>
      have rest : ∀ item ∈ items.drop 1, item.Avoids two.reserved := fun item member =>
        (Form.avoids_list.mp avoid.2.1).1 item (List.mem_of_mem_drop member)
      split
      · refine (coupled_visitOwn visits rest scopes.argument).bind fun more trees => ?_
        exact .pure (.node scopes rfl (.cons (tree.grow more) trees) (List.forall_mem_nil _))
      · exact .throw
    · split
      · exact .pure (.node scopes rfl (.cons tree .nil) (List.forall_mem_nil _))
      · exact .throw
  · exact .throw

omit visits in
theorem kindName_eq_access {shape : Shape Node} :
    shape.kindName = "host-property-access" ↔
      ∃ target static property, shape = .hostPropertyAccess target static property := by
  cases shape <;> simp [Shape.kindName]

theorem coupled_analyzeHostPropertySet (avoid : ∀ arg ∈ args, arg.Avoids two.reserved)
    (scopes : two.Scopes known a b) :
    Coupled two.States two.Trees log (analyzeHostPropertySet visit args span a)
      (analyzeHostPropertySet visit args span b) := by
  unfold analyzeHostPropertySet
  split
  · simp only [List.forall_mem_cons] at avoid
    refine (visits (.own avoid.1) scopes.argument).bind fun {_ first second} _ target => ?_
    refine (visits (.own avoid.2.1) scopes.argument).bind fun more value => ?_
    have children := List.Forall₂.cons (target.grow more) (.cons value .nil)
    -- The targets may differ inside, so all that both runs can be told by is the kind.
    have kinds : first.shape.kindName = second.shape.kindName := target.outline.kind
    by_cases access : first.shape.kindName = "host-property-access"
    · obtain ⟨_, _, _, left⟩ := kindName_eq_access.mp access
      obtain ⟨_, _, _, right⟩ := kindName_eq_access.mp (kinds ▸ access)
      rw [left, right]
      exact .pure (.node scopes rfl children (List.forall_mem_nil _))
    · have left := mt kindName_eq_access.mpr access
      have right := mt kindName_eq_access.mpr (kinds ▸ access)
      rw [← target.outline.span]
      split
      next given => exact (left ⟨_, _, _, given⟩).elim
      · split
        next given => exact (right ⟨_, _, _, given⟩).elim
        · exact .throw
  · exact .throw

/-- Two forms, both of them arguments. -/
theorem coupled_analyzeHostPair {form : SpecialForm} {shape : Node → Node → Shape Node}
    (kind : ∀ x y x' y', (shape x y).kindName = (shape x' y').kindName)
    (children : ∀ x y, (shape x y).children = [x, y]) (unbound : ∀ x y, (shape x y).bound = [])
    (avoid : ∀ arg ∈ args, arg.Avoids two.reserved) (scopes : two.Scopes known a b) :
    Coupled two.States two.Trees log (analyzeHostPair form shape visit args span a)
      (analyzeHostPair form shape visit args span b) := by
  unfold analyzeHostPair
  split
  · simp only [List.forall_mem_cons] at avoid
    refine (visits (.own avoid.1) scopes.argument).bind fun _ first => ?_
    refine (visits (.own avoid.2.1) scopes.argument).bind fun more second => ?_
    refine .pure (.node scopes (kind _ _ _ _) ?_ ?_)
    · rw [children, children]
      exact .cons (first.grow more) (.cons second .nil)
    · rw [unbound]
      exact List.forall_mem_nil _
  · exact .throw

theorem coupled_analyzeHostArraySet (avoid : ∀ arg ∈ args, arg.Avoids two.reserved)
    (scopes : two.Scopes known a b) :
    Coupled two.States two.Trees log (analyzeHostArraySet visit args span a)
      (analyzeHostArraySet visit args span b) := by
  unfold analyzeHostArraySet
  split
  · simp only [List.forall_mem_cons] at avoid
    refine (visits (.own avoid.1) scopes.argument).bind fun _ array => ?_
    refine (visits (.own avoid.2.1) scopes.argument).bind fun more index => ?_
    refine (visits (.own avoid.2.2.1) scopes.argument).bind fun last value => ?_
    have children := List.Forall₂.cons ((array.grow more).grow last)
      (.cons (index.grow last) (.cons value .nil))
    exact .pure (.node scopes rfl children (List.forall_mem_nil _))
  · exact .throw

theorem coupled_analyzeAssign {settings : Settings}
    (avoid : ∀ arg ∈ args, arg.Avoids two.reserved) (scopes : two.Scopes known a b) :
    Coupled two.States two.Trees log (analyzeAssign settings visit args span a)
      (analyzeAssign settings visit args span b) := by
  unfold analyzeAssign
  split
  next target value =>
    simp only [List.forall_mem_cons] at avoid
    split
    · exact .throw
    next symbol found =>
      have isOwn := own_symbol avoid.1 found
      refine (coupled_analyzeSymbol scopes.argument (scopes.argument.own symbol isOwn)).bind
        fun _ both => ?_
      obtain ⟨tree, same⟩ := both
      have spans := tree.outline.span
      rcases same with same | ⟨_, _, _, _, left, right⟩
      · rw [same, spans]
        split
        · refine (visits (.own avoid.2.1) scopes.argument).bind fun more value => ?_
          have children := List.Forall₂.cons (tree.grow more) (.cons value .nil)
          exact .pure (.node scopes rfl children (List.forall_mem_nil _))
        · exact .throw
      · rw [left, right, spans]
        exact .throw
  · exact .throw

/-- Handlers of a guarded block. -/
structure Handlers (two : Renumbering) (log : List Draw) (first second : List (Handler Node)) :
    Prop where
  trees : List.Forall₂ (two.Trees log) (first.map Handler.body) (second.map Handler.body)
  own : ∀ handler ∈ first, two.reserved handler.symbol.name = false

theorem coupled_analyzeHandler {settings : Settings} {clause : Guarded.Clause}
    (avoid : ∀ item ∈ clause.items, item.Avoids two.reserved) (scopes : two.Scopes known a b) :
    Coupled two.States
      (fun later first second => two.Trees later first.body second.body ∧
        two.reserved first.symbol.name = false) log
      (Guarded.analyzeHandler settings visit a clause)
      (Guarded.analyzeHandler settings visit b clause) := by
  unfold Guarded.analyzeHandler
  split
  next cls name body given =>
    rw [given] at avoid
    simp only [List.forall_mem_cons] at avoid
    obtain ⟨clsAvoids, nameAvoids, bodyAvoids⟩ := avoid
    split
    next cls name foundCls foundName =>
      have isOwn := own_symbol clsAvoids foundCls
      have nameOwn := (Form.avoids_symbol.mp (Form.plainSymbol?_eq_some foundName ▸ nameAvoids)).1
      refine (coupled_analyzeSymbol scopes.argument (scopes.argument.own cls isOwn)).bind
        fun {later _ _} _ both => ?_
      obtain ⟨tree, same⟩ := both
      rcases same with same | ⟨_, _, _, _, left, right⟩
      · rw [same]
        split
        · have binders : two.Binders later [] [name] [name] := .own nameOwn .nil
          refine (coupled_ownBody visits bodyAvoids (scopes.introduce binders).block).bind
            fun _ tree => ?_
          exact .pure ⟨tree, nameOwn⟩
        · exact .throw
      · rw [left, right]
        exact .throw
    · exact .throw
  · exact .throw

theorem coupled_analyzeHandlers {settings : Settings} {clauses : List Guarded.Clause}
    (avoid : ∀ clause ∈ clauses, ∀ item ∈ clause.items, item.Avoids two.reserved)
    (scopes : two.Scopes known a b) :
    Coupled two.States two.Handlers log (Guarded.analyzeHandlers settings visit a clauses)
      (Guarded.analyzeHandlers settings visit b clauses) := by
  induction clauses generalizing log with
  | nil => exact .pure ⟨.nil, List.forall_mem_nil _⟩
  | cons clause rest ih =>
    obtain ⟨here, others⟩ := List.forall_mem_cons.mp avoid
    refine (coupled_analyzeHandler visits here scopes).bind fun _ handler => ?_
    obtain ⟨tree, isOwn⟩ := handler
    refine (ih others).bind fun more handlers => ?_
    refine .pure ⟨.cons (tree.grow more) handlers.trees, ?_⟩
    exact List.forall_mem_cons.mpr ⟨isOwn, handlers.own⟩

theorem coupled_analyzeCleanup {clause : Option Guarded.Clause}
    (avoid : ∀ given, clause = some given → ∀ item ∈ given.items, item.Avoids two.reserved)
    (scopes : two.Scopes known a b) :
    Coupled two.States
      (fun later first second => List.Forall₂ (two.Trees later) first.toList second.toList) log
      (Guarded.analyzeCleanup visit a clause) (Guarded.analyzeCleanup visit b clause) := by
  cases clause with
  | none => exact .pure .nil
  | some clause =>
    refine (coupled_ownBody visits (avoid clause rfl) scopes).bind fun _ tree => ?_
    exact .pure (.cons tree .nil)

theorem coupled_analyzeGuarded {settings : Settings}
    (avoid : ∀ arg ∈ args, arg.Avoids two.reserved) (scopes : two.Scopes known a b) :
    Coupled two.States two.Trees log (analyzeGuarded settings visit args span a)
      (analyzeGuarded settings visit args span b) := by
  apply bind_ofExcept
  intro parts read
  obtain ⟨bodyAvoids, clauses, cleanup⟩ := Guarded.parts_all avoid read
  have items (clause : Guarded.Clause) (avoids : clause.form.Avoids two.reserved) :
      ∀ item ∈ clause.items, item.Avoids two.reserved :=
    (List.forall_mem_cons.mp (Form.avoids_list.mp avoids).1).2
  split
  · exact coupled_ownBody visits bodyAvoids scopes
  · refine (coupled_ownBody visits bodyAvoids scopes.returning.block).bind fun _ body => ?_
    refine (coupled_analyzeHandlers visits (fun clause member => items clause
      (clauses clause member)) scopes.returning).bind fun more handlers => ?_
    refine (coupled_analyzeCleanup visits (fun clause given => items clause
      (cleanup clause given)) scopes.effect).bind fun last cleanup => ?_
    have early := List.Forall₂.cons ((body.grow more).grow last)
      (Trees.grow_all last handlers.trees)
    refine .pure (.node scopes rfl (List.rel_append early cleanup) ?_)
    exact List.forall_mem_map.mpr fun handler member => .inl (handlers.own handler member)

theorem coupled_visitBoth {first second : Form} (firstAvoids : first.Avoids two.reserved)
    (secondAvoids : second.Avoids two.reserved) (scopes : two.Scopes known a b) :
    Coupled two.States
      (fun later x y => List.Forall₂ (two.Trees later) [x.1, x.2] [y.1, y.2]) log
      (visitBoth visit first second a) (visitBoth visit first second b) := by
  refine (visits (.own firstAvoids) scopes).bind fun _ tree => ?_
  refine (visits (.own secondAvoids) scopes).bind fun more other => ?_
  exact .pure (.cons (tree.grow more) (.cons other .nil))

theorem coupled_analyzeDefine (avoid : ∀ arg ∈ args, arg.Avoids two.reserved)
    (scopes : two.Scopes known a b) :
    Coupled two.States two.Trees log (analyzeDefine visit args span a)
      (analyzeDefine visit args span b) := by
  unfold analyzeDefine
  rw [scopes.defAllowed]
  split
  · apply bind_ofExcept
    rintro ⟨metadataForm, init⟩ parts
    apply bind_ofExcept
    intro name named
    apply bind_ofExcept
    intro metadata collected
    have metadataAvoids :=
      (Form.inherited_avoids two.reserved).collected avoid parts named collected
    have initAvoids := avoid init (Definition.mem_of_parts parts).2
    apply bind_registry
    intro registry
    refine coupled_define.bind fun _ same => ?_
    subst same
    have inside := (scopes.argument.allowDef false).labelled
      (platformName registry.current name.base) (platformName registry.current name.base)
    refine (coupled_onFailure (coupled_visitBoth visits metadataAvoids initAvoids inside)).bind
      fun _ trees => ?_
    exact .pure (.node scopes rfl trees (List.forall_mem_nil _))
  · exact .throw

/-- Methods of a struct. Both runs give the same ones. -/
structure Methods (two : Renumbering) (log : List Draw) (first second : List (StructMethod Node)) :
    Prop where
  names : first.map StructMethod.name = second.map StructMethod.name
  trees : List.Forall₂ (two.Trees log) (first.map fun method => method.lambda.body)
    (second.map fun method => method.lambda.body)
  accounts : ∀ bound ∈ first.flatMap fun method => method.lambda.params.map BoundName.written,
    two.Accounts log bound

theorem coupled_analyzeMethods {definition : Definition} {declared : List String}
    {methods : List Struct.MethodForm}
    (avoid : ∀ method ∈ methods, ∀ item ∈ method.items, item.Avoids two.reserved)
    (scopes : two.Scopes known a b) :
    Coupled two.States two.Methods log (Struct.analyzeMethods visit definition declared a methods)
      (Struct.analyzeMethods visit definition declared b methods) := by
  induction methods generalizing log with
  | nil => exact .pure ⟨rfl, .nil, List.forall_mem_nil _⟩
  | cons method rest ih =>
    obtain ⟨here, others⟩ := List.forall_mem_cons.mp avoid
    have behind (item : Form) (listed : item ∈ method.items.drop 1) :=
      here item (List.mem_of_mem_drop listed)
    apply bind_ofExcept
    intro name _
    refine (coupled_analyzeLambda visits behind scopes).bind fun _ lambdas => ?_
    refine (ih others).bind fun more methods => ?_
    refine .pure ⟨congrArg (name :: ·) methods.names,
      .cons (lambdas.trees.grow more) methods.trees, ?_⟩
    refine List.forall_mem_append.mpr ⟨fun bound member => ?_, methods.accounts⟩
    exact (lambdas.accounts bound member).grow more

omit visits in
theorem Methods.missing_eq {declared : List String} {first second : List (StructMethod Node)}
    (methods : two.Methods log first second) :
    Struct.missing declared first = Struct.missing declared second := by
  have given (methods : List (StructMethod Node)) (base : String) :
      (methods.any fun method => method.name.base == base) =
        (methods.map StructMethod.name).any fun name => name.base == base := by
    rw [List.any_map]
    rfl
  simp only [Struct.missing, given, methods.names]

/-- What a struct gives for its interfaces. -/
structure Implementations (two : Renumbering) (log : List Draw)
    (first second : List (Implementation Node)) : Prop where
  trees : List.Forall₂ (two.Trees log)
    (first.flatMap fun implementation =>
      implementation.methods.map fun method => method.lambda.body)
    (second.flatMap fun implementation =>
      implementation.methods.map fun method => method.lambda.body)
  accounts : ∀ bound ∈ first.flatMap fun implementation =>
      implementation.methods.flatMap fun method => method.lambda.params.map BoundName.written,
    two.Accounts log bound

theorem coupled_analyzeGroups {settings : Settings} {groups : List Struct.Group}
    (avoid : ∀ group ∈ groups, ∀ method ∈ group.methods, ∀ item ∈ method.items,
      item.Avoids two.reserved) (scopes : two.Scopes known a b) :
    Coupled two.States two.Implementations log (Struct.analyzeGroups settings visit a groups)
      (Struct.analyzeGroups settings visit b groups) := by
  induction groups generalizing log with
  | nil => exact .pure ⟨.nil, List.forall_mem_nil _⟩
  | cons group rest ih =>
    obtain ⟨here, others⟩ := List.forall_mem_cons.mp avoid
    have own : Coupled two.States (fun later x y => two.Methods later x.methods y.methods) log
        (Struct.analyzeGroup settings visit a group)
        (Struct.analyzeGroup settings visit b group) := by
      apply bind_registry
      intro registry
      apply bind_ofExcept
      rintro ⟨definition, declared⟩ _
      refine (coupled_analyzeMethods visits here scopes).bind fun _ methods => ?_
      rw [methods.missing_eq]
      split
      · exact .pure methods
      · exact .throw
    refine own.bind fun _ methods => ?_
    refine (ih others).bind fun more implementations => ?_
    refine .pure ⟨List.rel_append (Trees.grow_all more methods.trees) implementations.trees, ?_⟩
    refine List.forall_mem_append.mpr ⟨fun bound member => ?_, implementations.accounts⟩
    exact (methods.accounts bound member).grow more

omit visits in
theorem binders_own {symbols : List Symbol}
    (own : ∀ symbol ∈ symbols, two.reserved symbol.name = false) :
    two.Binders log [] symbols symbols := by
  induction symbols with
  | nil => exact .nil
  | cons symbol rest ih =>
    obtain ⟨isOwn, others⟩ := List.forall_mem_cons.mp own
    exact .own isOwn (ih others)

omit visits in
theorem plainSymbols_own {fault : Fault} {items : List Form} {symbols : List Symbol}
    (avoid : ∀ item ∈ items, item.Avoids two.reserved)
    (read : plainSymbols fault items = .ok symbols) :
    ∀ symbol ∈ symbols, two.reserved symbol.name = false := by
  induction items generalizing symbols with
  | nil =>
    obtain rfl := Except.ok.inj read
    exact List.forall_mem_nil _
  | cons item rest ih =>
    obtain ⟨avoids, others⟩ := List.forall_mem_cons.mp avoid
    unfold plainSymbols at read
    split at read
    next symbol found =>
      rcases later : plainSymbols fault rest with error | names
      · rw [later] at read
        contradiction
      · rw [later] at read
        obtain rfl := Except.ok.inj read
        have isOwn := own_symbol avoids (Option.filter_eq_some_iff.mp found).1
        exact List.forall_mem_cons.mpr ⟨isOwn, ih others later⟩
    · contradiction

omit visits in
theorem fields_own {fields : List Symbol} (avoid : ∀ arg ∈ args, arg.Avoids two.reserved)
    (read : Struct.fields args span = .ok fields) :
    ∀ field ∈ fields, two.reserved field.name = false := by
  unfold Struct.fields at read
  split at read
  next items _ _ _ found =>
    have listed : Form.vector items _ _ ∈ args :=
      List.mem_of_mem_drop (found ▸ List.mem_cons_self)
    exact plainSymbols_own (Form.avoids_vector.mp (avoid _ listed)).1 read
  · contradiction

theorem coupled_analyzeDefStruct {settings : Settings}
    (avoid : ∀ arg ∈ args, arg.Avoids two.reserved) (scopes : two.Scopes known a b) :
    Coupled two.States two.Trees log (analyzeDefStruct settings visit args span a)
      (analyzeDefStruct settings visit args span b) := by
  unfold analyzeDefStruct
  split
  · exact .throw
  · apply bind_ofExcept
    intro name _
    apply bind_ofExcept
    intro fields read
    apply bind_registry
    intro registry
    refine coupled_define.bind fun {later _ _} _ _ => ?_
    apply bind_ofExcept
    intro groups grouped
    have binders : two.Binders later [] fields fields := binders_own (fields_own avoid read)
    have inside := (scopes.introduce binders).labelled
      (platformName registry.current name.base) (platformName registry.current name.base)
    have methods : ∀ group ∈ groups, ∀ method ∈ group.methods, ∀ item ∈ method.items,
        item.Avoids two.reserved := by
      refine Struct.group_all (List.forall_mem_nil _) (fun method listed => ?_) grouped
      obtain ⟨_, member⟩ := listed
      exact (Form.avoids_list.mp (avoid _ (List.mem_of_mem_drop member))).1
    refine (coupled_analyzeGroups visits methods inside).bind fun more implementations => ?_
    refine .pure (.node scopes rfl implementations.trees ?_)
    refine List.forall_mem_append.mpr ⟨?_, implementations.accounts⟩
    exact List.forall_mem_map.mpr fun field member =>
      (binders.accounts field member).grow more

omit visits

theorem coupled_analyzeDefInterface (scopes : two.Scopes known a b) :
    Coupled two.States two.Trees log (analyzeDefInterface args span a)
      (analyzeDefInterface args span b) := by
  unfold analyzeDefInterface
  split
  · exact .throw
  · apply bind_ofExcept
    intro name _
    apply bind_ofExcept
    intro methods _
    apply bind_registry
    intro registry
    refine coupled_define.bind fun _ _ => coupled_changeRegistry.bind fun _ _ => ?_
    exact .pure (.node scopes rfl .nil (List.forall_mem_nil _))

theorem coupled_analyzeDefException (scopes : two.Scopes known a b) :
    Coupled two.States two.Trees log (analyzeDefException args span a)
      (analyzeDefException args span b) := by
  unfold analyzeDefException
  split
  · apply bind_ofExcept
    intro name _
    apply bind_registry
    intro registry
    refine coupled_define.bind fun _ _ => ?_
    exact .pure (.node scopes rfl .nil (List.forall_mem_nil _))
  · exact .throw

theorem coupled_analyzeNs {settings : Settings} (scopes : two.Scopes known a b) :
    Coupled two.States two.Trees log (analyzeNs settings args span a)
      (analyzeNs settings args span b) := by
  apply bind_ofExcept
  rintro ⟨ns, declaration⟩ _
  refine coupled_changeRegistry.bind fun _ _ => ?_
  exact .pure (.node scopes rfl .nil (List.forall_mem_nil _))

theorem coupled_analyzeInNs {settings : Settings} (scopes : two.Scopes known a b) :
    Coupled two.States two.Trees log (analyzeInNs settings args span a)
      (analyzeInNs settings args span b) := by
  unfold analyzeInNs
  split
  · apply bind_ofExcept
    intro ns _
    apply bind_ofExcept
    intro _ _
    refine coupled_changeRegistry.bind fun _ _ => ?_
    exact .pure (.node scopes rfl .nil (List.forall_mem_nil _))
  · exact .throw

theorem coupled_analyzeQuote (scopes : two.Scopes known a b) :
    Coupled two.States two.Trees log (analyzeQuote args span a) (analyzeQuote args span b) := by
  unfold analyzeQuote
  split
  · exact .pure (.node scopes rfl .nil (List.forall_mem_nil _))
  · exact .throw

include visits

theorem coupled_analyzeSpecial {analyzer : Analyzer}
    (core : analyzer.settings.coreNamespace = two.core) (form : SpecialForm)
    (avoid : ∀ arg ∈ args, arg.Avoids two.reserved) (scopes : two.Scopes known a b) :
    Coupled two.States two.Trees log (analyzer.analyzeSpecial visit form args span a)
      (analyzer.analyzeSpecial visit form args span b) := by
  cases form with
  | define => exact coupled_analyzeDefine visits avoid scopes
  | fn => exact coupled_analyzeFn visits avoid scopes
  | letIn => exact coupled_ownLet visits core avoid scopes
  | loop => exact coupled_ownLoop visits avoid scopes
  | block => exact coupled_ownBody visits avoid scopes
  | branch => exact coupled_analyzeBranch visits avoid scopes
  | recur => exact coupled_analyzeRecur visits avoid scopes
  | quote => exact coupled_analyzeQuote scopes
  | apply => exact coupled_analyzeApply visits avoid scopes
  | guarded => exact coupled_analyzeGuarded visits avoid scopes
  | throw => exact coupled_analyzeThrow visits avoid scopes
  | assign => exact coupled_analyzeAssign visits avoid scopes
  | foreach => exact coupled_analyzeForeach visits avoid scopes
  | ns => exact coupled_analyzeNs scopes
  | inNs => exact coupled_analyzeInNs scopes
  | defStruct => exact coupled_analyzeDefStruct visits avoid scopes
  | defInterface => exact coupled_analyzeDefInterface scopes
  | defException => exact coupled_analyzeDefException scopes
  | hostNew => exact coupled_analyzeHostNew visits avoid scopes
  | hostMember => exact coupled_analyzeHostMember visits avoid scopes
  | hostStaticMember => exact coupled_analyzeHostMember visits avoid scopes
  | hostPropertySet => exact coupled_analyzeHostPropertySet visits avoid scopes
  | hostArraySet => exact coupled_analyzeHostArraySet visits avoid scopes
  | hostArrayGet | hostArrayPush | hostArrayUnset =>
    exact coupled_analyzeHostPair visits (fun _ _ _ _ => rfl) (fun _ _ => rfl) (fun _ _ => rfl)
      avoid scopes

end Rules

end Renumbering

end LispFront
