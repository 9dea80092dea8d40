import LispFront.Proofs.HeadResolution
import LispFront.Proofs.Mentions
import LispFront.Proofs.Rollback

/-! Taking a pattern apart writes calls of `get` and `drop`, qualified with the core namespace. The
qualifier goes through the short names of the current namespace like any other, so these calls mean
the core functions unless the current namespace has given the name of the core namespace to another
one (`denotes_core_iff`). -/

namespace LispFront

/-- Analyzing the form has the call generated: by a `let` in it, behind the value that a
pattern is bound to, or by a `let` that lowering makes of its patterns. -/
inductive Form.Generates (core : String) : Form → Form → Prop where
  | letIn {head : Form} {args body : List Form} {span : Option Span} {metadata : Entries}
      {pairs : List (Form × Form)} {pattern value call : Form} {symbol : Symbol}
      {first : Symbol × Form} {rest : List (Symbol × Form)} {n m : NameSupply}
      (special : Analyzer.special? head = some .letIn)
      (read : Binder.header .letIn args span = .ok (pairs, body)) (bound : (pattern, value) ∈ pairs)
      (lowered : Gives (Pattern.lower core pattern value) n (first :: rest) m)
      (behind : (symbol, call) ∈ rest) : Generates core (.list (head :: args) span metadata) call
  | loop {head : Form} {args body : List Form} {span : Option Span} {metadata : Entries}
      {pairs : List (Form × Form)} {lowered call : Form} {n m : NameSupply}
      (special : Analyzer.special? head = some .loop)
      (read : Binder.header .loop args span = .ok (pairs, body))
      (run : Gives (Pattern.lowerLoop pairs body span) n lowered m)
      (inner : Generates core lowered call) :
      Generates core (.list (head :: args) span metadata) call
  | fn {head : Form} {items body : List Form} {span vectorSpan : Option Span}
      {metadata vectorMetadata : Entries} {params : Parameters} {inner call : Form}
      {n m : NameSupply} (special : Analyzer.special? head = some .fn)
      (run : Gives (Parameters.lower items vectorSpan) n params m)
      (member : inner ∈ Pattern.bindAround params.bindings body span)
      (inside : Generates core inner call) :
      Generates core
        (.list (head :: .vector items vectorSpan vectorMetadata :: body) span metadata) call
  | foreach {head value coll : Form} {key : Option Form} {body bindings keyBindings : List Form}
      {span vectorSpan : Option Span} {metadata vectorMetadata : Entries} {symbol : Symbol}
      {keySymbol : Option Symbol} {inner call : Form} {n m k : NameSupply}
      (special : Analyzer.special? head = some .foreach)
      (named : Gives (Pattern.nameFor value) n (symbol, bindings) m)
      (keyed : Gives (Pattern.nameForOption key) m (keySymbol, keyBindings) k)
      (member : inner ∈ Pattern.bindAround (bindings ++ keyBindings) body span)
      (inside : Generates core inner call) :
      Generates core
        (.list (head :: .vector (key.toList ++ [value, coll]) vectorSpan vectorMetadata :: body)
          span metadata) call
  /-- A form inside of a list that is analyzed on its own. -/
  | inside {items : List Form} {span : Option Span} {metadata : Entries} {inner call : Form}
      (member : inner ∈ items) (rest : Generates core inner call) :
      Generates core (.list items span metadata) call

theorem Form.Generates.accessor {core : String} {form call : Form}
    (generated : form.Generates core call) :
    ∃ base args span, (base = "get" ∨ base = "drop") ∧
      call = Pattern.accessor core base args span := by
  induction generated with
  | letIn _ _ _ lowered behind =>
    obtain ⟨_, _, same, parts⟩ := Pattern.lower_values _ _ lowered
    obtain ⟨_, rfl⟩ := List.cons.inj same
    obtain ⟨whole, span, _, ⟨key, _, taken⟩ | ⟨index, taken⟩⟩ := parts _ behind
    · exact ⟨"get", _, span, .inl rfl, taken⟩
    · exact ⟨"drop", _, span, .inr rfl, taken⟩
  | loop _ _ _ _ ih => exact ih
  | fn _ _ _ _ ih => exact ih
  | foreach _ _ _ _ _ ih => exact ih
  | inside _ _ ih => exact ih

/-- At some depth of an analysis, the form is analyzed there and gives the node. -/
def Analyzer.Analyzes (analyzer : Analyzer) (form : Form) (scope : Scope) (s : State)
    (node : Node) (t : State) : Prop :=
  ∃ expand depth, Gives (analyzer.descend expand depth form scope) s node t

namespace Analyzer

variable {analyzer : Analyzer} {form : Form} {scope : Scope} {s t : State} {node : Node}

theorem analyzes_of_analyze (run : Gives (analyzer.analyze form scope) s node t) :
    analyzer.Analyzes form scope s node t := by
  obtain ⟨expand, depth, step⟩ := analyzer.analyze_eq_analyzeForm form scope
  rw [step] at run
  exact ⟨expand, depth + 1, run⟩

theorem Analyzes.step (analyzes : analyzer.Analyzes form scope s node t) : ∃ expand depth,
    Gives (analyzer.analyzeForm (analyzer.descend expand depth) expand form scope) s node t := by
  obtain ⟨expand, depth, run⟩ := analyzes
  cases depth with
  | zero => exact (not_gives_failAt run).elim
  | succ depth => exact ⟨expand, depth, run⟩

end Analyzer

theorem Binder.bindAll_inits {visit : Visit} {pairs : List (Symbol × Form)}
    {scope bodyScope : Scope} {bindings : List (Binding Node)} {s t : State}
    (run : Gives (Binder.bindAll visit pairs scope) s (bindings, bodyScope) t) :
    ∀ binding ∈ bindings, ∃ pair ∈ pairs, ∃ u v,
      Gives (visit pair.2 binding.scope) u binding.init v := by
  induction pairs generalizing scope s bindings with
  | nil =>
    simp only [Binder.bindAll, gives_pure, Prod.mk.injEq] at run
    obtain ⟨⟨rfl, _⟩, _⟩ := run
    simp
  | cons pair rest ih =>
    simp only [Binder.bindAll, gives_bind, gives_pure, Prod.mk.injEq] at run
    obtain ⟨_, _, _, init, _, visited, ⟨later, _⟩, _, others, ⟨rfl, rfl⟩, rfl⟩ := run
    intro binding member
    rcases List.mem_cons.mp member with rfl | behind
    · exact ⟨pair, List.mem_cons_self, _, _, visited⟩
    · obtain ⟨found, listed, inits⟩ := ih others binding behind
      exact ⟨found, List.mem_cons_of_mem _ listed, inits⟩

/-- Each binding comes from taking one of the patterns apart. -/
theorem Pattern.mem_lowerPairs {core : String} {pairs : List (Form × Form)}
    {flat : List (Symbol × Form)} {n m : NameSupply} {pair : Symbol × Form}
    (run : Gives (Pattern.lowerPairs core pairs) n flat m) (member : pair ∈ flat) :
    ∃ pattern value first rest n m, (pattern, value) ∈ pairs ∧
      Gives (Pattern.lower core pattern value) n ((first, value) :: rest) m ∧
      (pair.2 = value ∨ pair ∈ rest) := by
  induction pairs generalizing n flat with
  | nil =>
    obtain ⟨rfl, _⟩ := gives_pure.mp run
    contradiction
  | cons entry others ih =>
    obtain ⟨pattern, value⟩ := entry
    simp only [Pattern.lowerPairs, gives_bind, gives_pure] at run
    obtain ⟨here, _, lowered, there, _, later, rfl, rfl⟩ := run
    rcases List.mem_append.mp member with early | late
    · obtain ⟨first, rest, rfl, _⟩ := Pattern.lower_values _ _ lowered
      refine ⟨pattern, value, first, rest, _, _, List.mem_cons_self, lowered, ?_⟩
      exact (List.mem_cons.mp early).imp_left (congrArg Prod.snd)
    · obtain ⟨pattern, value, first, rest, n, m, listed, found⟩ := ih later late
      exact ⟨pattern, value, first, rest, n, m, List.mem_cons_of_mem _ listed, found⟩

/-- The initial values in the tree of a `let` are those of its header and the calls that it
generates. -/
theorem Analyzer.analyzes_letIn {analyzer : Analyzer} {head : Form} {args : List Form}
    {span : Option Span} {metadata : Entries} {scope : Scope} {s t : State} {node : Node}
    (special : Analyzer.special? head = some .letIn)
    (analyzes : analyzer.Analyzes (.list (head :: args) span metadata) scope s node t) :
    ∃ pairs rest bindings body, Binder.header .letIn args span = .ok (pairs, rest) ∧
      node.shape = .letIn bindings body ∧
      ∀ binding ∈ bindings, ∃ form u v, analyzer.Analyzes form binding.scope u binding.init v ∧
        ((∃ pattern, (pattern, form) ∈ pairs) ∨
          Form.Generates analyzer.settings.coreNamespace (.list (head :: args) span metadata)
            form) := by
  obtain ⟨expand, depth, run⟩ := analyzes.step
  simp only [analyzeForm, special, analyzeSpecial, analyzeLet, gives_bind, gives_pure,
    gives_ofExcept, gives_ofNames] at run
  obtain ⟨⟨pairs, rest⟩, _, ⟨read, rfl⟩, flat, _, ⟨_, lowered, rfl⟩, ⟨bindings, _⟩, _, bound,
    body, _, _, rfl, _⟩ := run
  refine ⟨pairs, rest, bindings, body, read, rfl, fun binding member => ?_⟩
  obtain ⟨pair, listed, u, v, visited⟩ := Binder.bindAll_inits bound binding member
  refine ⟨pair.2, u, v, ⟨expand, depth, visited⟩, ?_⟩
  obtain ⟨pattern, value, first, parts, n, m, written, taken, rfl | behind⟩ :=
    Pattern.mem_lowerPairs lowered listed
  · exact .inl ⟨pattern, written⟩
  · exact .inr (.letIn special read written taken behind)

/-- The namespace has a public function of that name which calls do not expand. -/
def Registry.Offers (registry : Registry) (ns base : String) : Prop :=
  ∃ definition, registry.definition? ns base = some definition ∧ definition.isPrivate = false ∧
    definition.isMacro = false ∧ definition.isInline = false

section Qualified

variable {settings : Settings} {scope : Scope} {s : State} {ns base : String}
variable {span : Option Span} {metadata : Entries} {definition : Definition}

/-- A qualified name that is not one of the host has no meaning but that of a definition. -/
theorem denotes_qualified_iff {home : String} (apart : ns ≠ hostNamespace) :
    Denotes settings scope s { name := .qualified ns base, span } home metadata ↔
      ∃ definition, Resolve.global? settings.coreNamespace s.registry
        { name := .qualified ns base, span } = .ok (some definition) ∧
        definition.ns = home ∧ definition.metadata = metadata := by
  have notHost : (Resolve.host? { name := .qualified ns base, span } : Option (Shape Node)) =
      none := if_neg apart
  rw [denotes_iff, Resolve.shape_eq_globalVar_iff]
  exact ⟨fun all => all.2.2.2, fun found => ⟨notHost, rfl, rfl, found⟩⟩

theorem global?_of_public (isPublic : definition.isPrivate = false)
    (found : s.registry.definition? (s.registry.qualifier ns) base = some definition) :
    Resolve.global? settings.coreNamespace s.registry { name := .qualified ns base, span } =
      .ok (some definition) := by
  have looked : s.registry.lookup? settings.coreNamespace (.qualified ns base) =
      some definition := found
  simp [Resolve.global?, looked, isPublic]

/-- With the core functions in place, an accessor is one of them just when the qualifier of
the core namespace is not the short name of another one. -/
theorem denotes_core_iff {core : String} (apart : core ≠ hostNamespace) (made : s.registry.Made)
    (offers : s.registry.Offers core base) :
    (∃ metadata, Denotes settings scope s { name := .qualified core base, span } core metadata) ↔
      s.registry.qualifier core = core := by
  simp only [denotes_qualified_iff apart]
  constructor
  · rintro ⟨_, definition, found, home, _⟩
    have looked : s.registry.definition? (s.registry.qualifier core) base = some definition :=
      Resolve.lookup?_of_global? found
    exact (made.filed looked).1.symm.trans home
  · intro own
    obtain ⟨definition, found, isPublic, _⟩ := offers
    have looked : s.registry.definition? (s.registry.qualifier core) base = some definition := by
      rw [own]
      exact found
    exact ⟨_, definition, global?_of_public isPublic looked, (made.filed found).1, rfl⟩

theorem ofName?_qualified (apart : ns ≠ hostNamespace) :
    SpecialForm.ofName? (.qualified ns base) = none := by
  cases found : SpecialForm.ofName? (.qualified ns base) with
  | none => rfl
  | some form =>
    have named := congrArg Name.ns (SpecialForm.name_of_ofName? found)
    cases form <;> simp [SpecialForm.name, Name.plain, Name.qualified] at named <;>
      exact absurd named.symm apart

/-- A call of a core function through its qualified name is analyzed as it stands. -/
theorem Analyzer.Analyzes.accessor {analyzer : Analyzer} {core : String} {args : List Form}
    {node : Node} {t : State} (apart : core ≠ hostNamespace)
    (spelled : Resolve.isClassName base = false) (made : s.registry.Made)
    (offers : s.registry.Offers core base) (own : s.registry.qualifier core = core)
    (analyzes : analyzer.Analyzes (Pattern.accessor core base args span) scope s node t) :
    ∃ metadata nodes, node = .mk scope span (.call (.mk scope.argument span
      (.globalVar core { name := .qualified core base, span } metadata)) nodes) := by
  obtain ⟨definition, found, isPublic, isMacro, isInline⟩ := offers
  have looked : s.registry.definition? (s.registry.qualifier core) base = some definition := by
    rw [own]
    exact found
  have resolved : Resolve.expandable? analyzer.settings.coreNamespace s.registry scope
      { name := .qualified core base, span } = .ok (some definition) := by
    refine Resolve.expandable?_eq_some_iff.mpr ⟨?_, spelled, rfl, rfl, ?_⟩
    · exact fun same => apart (Option.some.inj same)
    · exact global?_of_public isPublic looked
  have denotes : Denotes analyzer.settings scope.argument s { name := .qualified core base, span }
      core definition.metadata :=
    (denotes_qualified_iff apart).mpr
      ⟨definition, global?_of_public isPublic looked, (made.filed found).1, rfl⟩
  obtain ⟨expand, depth, run⟩ := analyzes.step
  have call : analyzer.analyzeForm (analyzer.descend expand depth) expand
      (Pattern.accessor core base args span) scope s =
      Call.plain (analyzer.descend expand depth)
        (Symbol.form { name := .qualified core base, span }) args span scope s :=
    (congrFun (analyzeForm_of_not_special (ofName?_qualified apart)) s).trans
      (Call.analyzeCall_of_function isMacro isInline resolved)
  simp only [Gives, call] at run
  obtain ⟨callee, _, visited, run⟩ := gives_bind.mp run
  obtain ⟨nodes, _, _, run⟩ := gives_bind.mp run
  obtain ⟨rfl, _⟩ := gives_pure.mp run
  have head : analyzer.Analyzes (Symbol.form { name := .qualified core base, span })
      scope.argument s callee _ := ⟨expand, depth, visited⟩
  obtain ⟨_, _, resolution⟩ := head.step
  obtain ⟨rfl, _⟩ := Gives.unique resolution denotes
  exact ⟨definition.metadata, nodes, rfl⟩

end Qualified

/-- Every call that taking a pattern apart generates, be it in a `let`, a loop, a function or
a `foreach`, is a call of `get` or `drop` with the core namespace as qualifier. In a state
where the core namespace offers both, its head resolves to the variable of the core namespace
just when the current namespace has not given that name to another namespace; wherever it is
analyzed then, it becomes a call of that variable. All that a `let` adds to the values of its
header are such calls. -/
theorem generated_accessor_resolution {analyzer : Analyzer}
    (apart : analyzer.settings.coreNamespace ≠ hostNamespace) :
    (∀ form call : Form, form.Generates analyzer.settings.coreNamespace call →
      ∃ base args span, (base = "get" ∨ base = "drop") ∧
        call = Pattern.accessor analyzer.settings.coreNamespace base args span ∧
        ∀ scope s, s.registry.Made → s.registry.Offers analyzer.settings.coreNamespace "get" →
          s.registry.Offers analyzer.settings.coreNamespace "drop" →
          ((∃ metadata, Denotes analyzer.settings scope s
              { name := .qualified analyzer.settings.coreNamespace base, span }
              analyzer.settings.coreNamespace metadata) ↔
            s.registry.qualifier analyzer.settings.coreNamespace =
              analyzer.settings.coreNamespace) ∧
          (s.registry.qualifier analyzer.settings.coreNamespace =
              analyzer.settings.coreNamespace →
            ∀ node t, analyzer.Analyzes call scope s node t →
              ∃ metadata nodes, node = .mk scope span (.call (.mk scope.argument span
                (.globalVar analyzer.settings.coreNamespace
                  { name := .qualified analyzer.settings.coreNamespace base, span } metadata))
                nodes))) ∧
    (∀ head args span metadata scope s node t, Analyzer.special? head = some .letIn →
      analyzer.Analyzes (.list (head :: args) span metadata) scope s node t →
      ∃ pairs rest bindings body, Binder.header .letIn args span = .ok (pairs, rest) ∧
        node.shape = .letIn bindings body ∧
        ∀ binding ∈ bindings, ∃ form u v,
          analyzer.Analyzes form binding.scope u binding.init v ∧
          ((∃ pattern, (pattern, form) ∈ pairs) ∨
            Form.Generates analyzer.settings.coreNamespace
              (.list (head :: args) span metadata) form)) := by
  refine ⟨fun form call generated => ?_, fun _ _ _ _ _ _ _ _ special analyzes =>
    Analyzer.analyzes_letIn special analyzes⟩
  obtain ⟨base, args, span, named, rfl⟩ := generated.accessor
  refine ⟨base, args, span, named, rfl, fun scope s made get drop => ?_⟩
  have offers : s.registry.Offers analyzer.settings.coreNamespace base := by
    rcases named with rfl | rfl
    · exact get
    · exact drop
  have spelled : Resolve.isClassName base = false := by
    rcases named with rfl | rfl <;> rfl
  exact ⟨denotes_core_iff apart made offers, fun own node t analyzes =>
    analyzes.accessor apart spelled made offers own⟩

/-- A registry as it starts, with the accessors in the core namespace. -/
def Registry.withAccessors : Registry :=
  ((Registry.ofSettings {}).withDefinition "core" "get" []).withDefinition "core" "drop" []

theorem Registry.withAccessors_made : Registry.withAccessors.Made :=
  ((Made.ofSettings {}).withDefinition rfl).withDefinition rfl

theorem Registry.withAccessors_offers {base : String} (accessor : base = "get" ∨ base = "drop") :
    Registry.withAccessors.Offers "core" base := by
  rcases accessor with rfl | rfl
  · exact ⟨_, rfl, rfl, rfl, rfl⟩
  · exact ⟨_, rfl, rfl, rfl, rfl⟩

/-- The form `(let [[a] 1] a)`. -/
def Form.destructuringLet : Form :=
  .list [.plainSymbol "let", .vector [.vector [.plainSymbol "a"] none [], .int 1] none [],
    .plainSymbol "a"] none []

/-- The call `(core/get __tmp_1 0)`. -/
def Form.firstElement : Form :=
  Pattern.accessor "core" "get" [.plainSymbol "__tmp_1", .int 0] none

theorem Form.destructuringLet_generates :
    Form.destructuringLet.Generates "core" .firstElement := by
  have lowered : Gives (Pattern.lower "core" (.vector [.plainSymbol "a"] none []) (.int 1)) {}
      [(.plain "__tmp_1", .int 1), (.plain "a", .firstElement)] (NameSupply.afterTemps {} 1) := rfl
  exact .letIn rfl rfl (.head _) lowered (.head _)

set_option maxRecDepth 10000 in
/-- The core function is called even where `get` is a local name. -/
theorem generated_accessor_resolution_local_get : ∃ node t metadata nodes,
    Form.destructuringLet.Generates "core" .firstElement ∧
    Gives (({} : Analyzer).analyze .firstElement (Scope.top.bind [.plain "__tmp_1", .plain "get"]))
      { registry := .withAccessors } node t ∧
    node.shape = .call (.mk node.scope.argument none
      (.globalVar "core" { name := .qualified "core" "get" } metadata)) nodes := by
  obtain ⟨node, t, run⟩ : ∃ node t, Gives (({} : Analyzer).analyze .firstElement
      (Scope.top.bind [.plain "__tmp_1", .plain "get"])) { registry := .withAccessors } node t :=
    ⟨_, _, rfl⟩
  obtain ⟨base, args, span, _, same, resolves⟩ :=
    (@generated_accessor_resolution {} (by decide)).1 _ _ Form.destructuringLet_generates
  cases same
  obtain ⟨_, calls⟩ := resolves (Scope.top.bind [.plain "__tmp_1", .plain "get"])
    { registry := .withAccessors } Registry.withAccessors_made
    (Registry.withAccessors_offers (.inl rfl)) (Registry.withAccessors_offers (.inr rfl))
  obtain ⟨metadata, nodes, rfl⟩ := calls rfl node t (Analyzer.analyzes_of_analyze run)
  exact ⟨_, t, metadata, nodes, Form.destructuringLet_generates, run, rfl⟩

/-- The form `(ns app (:require target))`. -/
def Form.requiring (target : String) : Form :=
  .list [.plainSymbol "ns", .plainSymbol "app",
    .list [.plainKeyword "require", .plainSymbol target] none []] none []

set_option maxRecDepth 10000 in
/-- Requiring `my.core` makes `core` a short name of it, and `(core/get __tmp_1 0)` is then
looked for there. -/
theorem core_alias_misleads_accessor : ∃ node t u,
    Gives (({} : Analyzer).analyzeTopLevel (.requiring "my.core"))
      { registry := .withAccessors } node t ∧
    t.registry.Made ∧ t.registry.Offers "core" "get" ∧ t.registry.Offers "core" "drop" ∧
    Form.destructuringLet.Generates "core" .firstElement ∧
    ({} : Analyzer).analyzeTopLevel .destructuringLet t =
      (.error { fault := .unresolvedSymbol (.qualified "core" "get") }, u) := by
  have made := (@tracks_made {} rfl).follows_analyze (.requiring "my.core") .top
    { registry := .withAccessors } Registry.withAccessors_made
  exact ⟨_, _, _, rfl, made, ⟨_, rfl, rfl, rfl, rfl⟩, ⟨_, rfl, rfl, rfl, rfl⟩,
    Form.destructuringLet_generates, rfl⟩

end LispFront
