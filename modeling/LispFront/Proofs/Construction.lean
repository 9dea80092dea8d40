import LispFront.Proofs.Effects
import LispFront.Proofs.Steps

/-! Every node that an analysis gives is lawful and comes about by its steps. This is proved rule by
rule and once for all properties: a relation between a node and the states around it holds of every
analysis that succeeds as soon as it holds of a node whose parts it holds of
(`Builds.sound_analyze`). -/

namespace LispFront

/-- A relation that passes from the parts of a node to the node. `R` says what happens to
the state unseen, such as the drawing of names for patterns or the work of the host, as long as
only allowed writes are made. -/
structure Constructs (analyzer : Analyzer) (allows : Write → Prop)
    (R : Option Frame → State → State → Prop) (P : State → Node → State → Prop) : Prop where
  tracks : Permits analyzer allows R
  node : ∀ {scope span shape s t},
    shape.Lawful analyzer.settings.coreNamespace s.registry scope →
    Runs (R none) P s (shape.steps scope) t → P s (.mk scope span shape) t
  after : ∀ {node s t u}, R none s t → P t node u → P s node u

abbrev Builds (analyzer : Analyzer) (R : Option Frame → State → State → Prop)
    (P : State → Node → State → Prop) : Prop := Constructs analyzer (fun _ => True) R P

theorem Struct.interface?_eq_ok {core : String} {registry : Registry} {symbol : Symbol}
    {definition : Definition} {methods : List String}
    (looked : interface? core registry symbol = .ok (definition, methods)) :
    Resolve.global? core registry symbol = .ok (some definition) ∧
      registry.interface? definition.ns definition.base = some methods := by
  unfold interface? at looked
  rcases found : Resolve.global? core registry symbol with error | _ | other
  · rw [found] at looked
    contradiction
  · rw [found] at looked
    contradiction
  · simp only [found, bind, Except.bind] at looked
    split at looked
    · contradiction
    next declared =>
      obtain ⟨rfl, rfl⟩ := Prod.mk.inj (Except.ok.inj looked)
      exact ⟨rfl, declared⟩

theorem Binder.bindAll_symbols {visit : Visit} {pairs : List (Symbol × Form)}
    {scope bodyScope : Scope} {bindings : List (Binding Node)} {s t : State}
    (run : Gives (Binder.bindAll visit pairs scope) s (bindings, bodyScope) t) :
    bindings.map Binding.symbol = pairs.map Prod.fst := by
  induction pairs generalizing scope s bindings with
  | nil =>
    simp only [Binder.bindAll, gives_pure, Prod.mk.injEq] at run
    obtain ⟨⟨rfl, _⟩, _⟩ := run
    rfl
  | cons pair rest ih =>
    simp only [Binder.bindAll, gives_bind, gives_pure, Prod.mk.injEq] at run
    obtain ⟨_, _, _, _, _, _, ⟨later, _⟩, _, others, ⟨rfl, rfl⟩, rfl⟩ := run
    rw [List.map_cons, List.map_cons, ih others]

/-- A node in the scope it was analyzed in, of which the relation holds. -/
structure Built (P : State → Node → State → Prop) (scope : Scope) (s : State) (node : Node)
    (t : State) : Prop where
  placed : node.scope = scope
  holds : P s node t

def Sound (P : State → Node → State → Prop) (visit : Visit) : Prop :=
  ∀ {form scope s node t}, Gives (visit form scope) s node t → Built P scope s node t

namespace Constructs

variable {analyzer : Analyzer} {allows : Write → Prop} {R : Option Frame → State → State → Prop}
variable {P : State → Node → State → Prop} (builds : Constructs analyzer allows R P)
variable {s t u : State} {node : Node} {scope : Scope} {span : Option Span} {args : List Form}

include builds

theorem built {shape : Shape Node}
    (lawful : shape.Lawful analyzer.settings.coreNamespace s.registry scope)
    (runs : Runs (R none) P s (shape.steps scope) t) :
    Built P scope s (.mk scope span shape) t := ⟨rfl, builds.node lawful runs⟩

theorem built_after (changed : R none s t) (built : Built P scope t node u) :
    Built P scope s node u := ⟨built.placed, builds.after changed built.holds⟩

omit builds in
theorem runs_one {place : Place} (built : Built P scope s node t) :
    Runs (R none) P s [.visits place scope node] t := .visits built.placed built.holds (.done _)

section Rules

variable {visit : Visit} (sound : Sound P visit)

omit builds

include sound

theorem runs_visitAll {place : Place} {forms : List Form} {nodes : List Node}
    (run : Gives (visitAll visit scope forms) s nodes t) :
    Runs (R none) P s (nodes.map (.visits place scope)) t := by
  induction forms generalizing s nodes with
  | nil =>
    obtain ⟨rfl, rfl⟩ := gives_pure.mp run
    exact .done _
  | cons form rest ih =>
    simp only [visitAll, gives_bind, gives_pure] at run
    obtain ⟨node, _, first, nodes, _, others, rfl, rfl⟩ := run
    have built := sound first
    exact .visits built.placed built.holds (ih others)

theorem runs_visitEntries {place : Place} {entries : List (Form × Form)}
    {nodes : List (Node × Node)} (run : Gives (visitEntries visit scope entries) s nodes t) :
    Runs (R none) P s ((nodes.flatMap fun entry => [entry.1, entry.2]).map (.visits place scope))
      t := by
  induction entries generalizing s nodes with
  | nil =>
    obtain ⟨rfl, rfl⟩ := gives_pure.mp run
    exact .done _
  | cons entry rest ih =>
    simp only [visitEntries, gives_bind, gives_pure] at run
    obtain ⟨key, _, atKey, value, _, atValue, nodes, _, others, rfl, rfl⟩ := run
    have builtKey := sound atKey
    have builtValue := sound atValue
    exact .visits builtKey.placed builtKey.holds
      (.visits builtValue.placed builtValue.holds (ih others))

/-- Bindings come one after the other, and the scope grows by them. -/
theorem runs_bindAll {pairs : List (Symbol × Form)} {earlier : List BoundName}
    {bindings : List (Binding Node)} {bodyScope : Scope}
    (plain : ∀ pair ∈ pairs, pair.1.Plain)
    (run : Gives (Binder.bindAll visit pairs scope) s (bindings, bodyScope) t) :
    (∀ binding ∈ bindings, binding.Lawful) ∧ bodyScope = bindings.foldl Scope.extend scope ∧
    Runs (R none) P s (Binding.steps scope earlier bindings) t := by
  induction pairs generalizing s scope earlier bindings with
  | nil =>
    simp only [Binder.bindAll, gives_pure, Prod.mk.injEq] at run
    obtain ⟨⟨rfl, rfl⟩, rfl⟩ := run
    exact ⟨by simp, rfl, .done _⟩
  | cons pair rest ih =>
    obtain ⟨symbol, init⟩ := pair
    obtain ⟨plainFirst, plainRest⟩ := List.forall_mem_cons.mp plain
    simp only [Binder.bindAll, gives_bind, gives_pure, gives_ofNames, gives_draw,
      Prod.mk.injEq] at run
    obtain ⟨shadow, _, ⟨_, ⟨rfl, rfl⟩, rfl⟩, init, _, visited, ⟨later, inner⟩, _, others,
      ⟨rfl, rfl⟩, rfl⟩ := run
    obtain ⟨lawful, scopes, runs⟩ := ih plainRest others
    have built := sound visited
    exact ⟨List.forall_mem_cons.mpr ⟨⟨plainFirst, built.placed.symm⟩, lawful⟩, scopes,
      .names (.visits built.placed built.holds runs)⟩

include builds

theorem of_analyzeVector {items : List Form}
    (run : Gives (analyzeVector visit items span scope) s node t) : Built P scope s node t := by
  simp only [analyzeVector, gives_bind, gives_pure] at run
  obtain ⟨elements, _, visited, rfl, rfl⟩ := run
  exact builds.built trivial (runs_visitAll sound visited)

theorem of_analyzeMap {entries : Entries}
    (run : Gives (analyzeMap visit entries span scope) s node t) : Built P scope s node t := by
  simp only [analyzeMap, gives_bind, gives_pure] at run
  obtain ⟨nodes, _, visited, rfl, rfl⟩ := run
  exact builds.built trivial (runs_visitEntries sound visited)

theorem of_analyzeBody {forms : List Form}
    (run : Gives (analyzeBody visit forms span scope) s node t) : Built P scope s node t := by
  simp only [analyzeBody, gives_bind, gives_pure] at run
  obtain ⟨stmts, _, visited, ret, _, last, rfl, rfl⟩ := run
  exact builds.built trivial ((runs_visitAll sound visited).append (runs_one (sound last)))

theorem of_analyzeChoice {test yes no : Form}
    (run : Gives (analyzeChoice visit test yes no span scope) s node t) :
    Built P scope s node t := by
  simp only [analyzeChoice, gives_bind, gives_pure] at run
  obtain ⟨test, _, first, yes, _, second, no, _, third, rfl, rfl⟩ := run
  refine builds.built trivial ?_
  exact (runs_one (sound first)).append ((runs_one (sound second)).append (runs_one (sound third)))

theorem of_analyzeBranch (run : Gives (analyzeBranch visit args span scope) s node t) :
    Built P scope s node t := by
  unfold analyzeBranch at run
  split at run
  · exact builds.of_analyzeChoice sound run
  · exact builds.of_analyzeChoice sound run
  · exact (not_gives_fail run).elim

theorem of_analyzeThrow (run : Gives (analyzeThrow visit args span scope) s node t) :
    Built P scope s node t := by
  unfold analyzeThrow at run
  split at run
  · simp only [gives_bind, gives_pure] at run
    obtain ⟨exception, _, visited, rfl, rfl⟩ := run
    exact builds.built trivial (runs_one (sound visited))
  · exact (not_gives_fail run).elim

theorem of_analyzeApply (run : Gives (analyzeApply visit args span scope) s node t) :
    Built P scope s node t := by
  unfold analyzeApply at run
  split at run
  · simp only [gives_bind, gives_pure] at run
    obtain ⟨callee, _, first, args, _, others, rfl, rfl⟩ := run
    exact builds.built trivial ((runs_one (sound first)).append (runs_visitAll sound others))
  · exact (not_gives_fail run).elim

theorem of_analyzeLet
    (run : Gives (analyzeLet analyzer.settings visit args span scope) s node t) :
    Built P scope s node t := by
  simp only [analyzeLet, gives_bind, gives_pure, gives_ofExcept, gives_ofNames] at run
  obtain ⟨⟨pairs, forms⟩, _, ⟨_, rfl⟩, flat, _, ⟨names, lowered, rfl⟩, ⟨bindings, bodyScope⟩, _,
    bound, body, _, visited, rfl, rfl⟩ := run
  obtain ⟨lawful, rfl, runs⟩ := runs_bindAll sound (Pattern.lowerPairs_plain lowered) bound
  refine builds.built lawful
    (.unseen (builds.tracks.lowered temps_lowering.lowerPairs lowered) ?_)
  exact runs.append (runs_one (builds.of_analyzeBody sound visited))

theorem of_analyzeLoop (run : Gives (analyzeLoop visit args span scope) s node t) :
    Built P scope s node t := by
  simp only [analyzeLoop, gives_bind, gives_ofExcept] at run
  obtain ⟨⟨pairs, forms⟩, _, ⟨_, rfl⟩, run⟩ := run
  dsimp only at run
  split at run
  · simp only [gives_bind, gives_pure, gives_newFrame] at run
    obtain ⟨frame, _, ⟨rfl, rfl⟩, ⟨bindings, bodyScope⟩, _, bound, body, _, visited, rfl,
      rfl⟩ := run
    have symbols := Binder.bindAll_symbols bound
    obtain ⟨lawful, rfl, runs⟩ := runs_bindAll sound (simplePairs_plain pairs) bound
    refine builds.built ⟨lawful, symbols.symm⟩ (.opens ?_)
    exact runs.append (runs_one (builds.of_analyzeBody sound visited))
  · simp only [gives_bind, gives_ofNames] at run
    obtain ⟨form, _, ⟨names, lowered, rfl⟩, visited⟩ := run
    exact builds.built_after (builds.tracks.lowered temps_lowering.lowerLoop lowered)
      (sound visited)

theorem of_analyzeLambda {fields : List Symbol} {lambda : Lambda Node}
    (run : Gives (analyzeLambda visit args span scope) s lambda t) :
    lambda.Lawful scope ∧ Runs (R none) P s (lambda.steps scope fields) t := by
  unfold analyzeLambda at run
  split at run
  · exact (not_gives_fail run).elim
  · simp only [gives_bind, gives_pure, gives_ofNames, gives_newFrame] at run
    obtain ⟨params, _, ⟨names, lowered, rfl⟩, frame, _, ⟨rfl, rfl⟩, body, _, visited, rfl, rfl⟩ :=
      run
    refine ⟨⟨Parameters.lower_plain lowered, rfl, rfl⟩, ?_⟩
    refine .unseen (builds.tracks.lowered temps_lowering.lowerParameters lowered) (.opens ?_)
    exact runs_one (builds.of_analyzeBody sound visited)
  · exact (not_gives_failAt run).elim

theorem of_analyzeFn (run : Gives (analyzeFn visit args span scope) s node t) :
    Built P scope s node t := by
  simp only [analyzeFn, gives_bind, gives_pure] at run
  obtain ⟨lambda, _, analyzed, rfl, rfl⟩ := run
  obtain ⟨lawful, runs⟩ := builds.of_analyzeLambda sound analyzed
  exact builds.built lawful runs

theorem of_analyzeRecur (run : Gives (analyzeRecur visit args span scope) s node t) :
    Built P scope s node t := by
  unfold analyzeRecur at run
  split at run
  · exact (not_gives_fail run).elim
  next frame current =>
    split at run
    next count =>
      simp only [gives_bind, gives_pure, gives_activate] at run
      obtain ⟨_, _, rfl, nodes, _, visited, rfl, rfl⟩ := run
      have length : nodes.length = args.length := visitAll_length visited
      refine builds.built ⟨current, count.trans length.symm⟩ (.restarts ?_)
      exact runs_visitAll sound visited
    · exact (not_gives_fail run).elim

theorem of_analyzeEach {key : Option Form} {value coll : Form} {body : List Form}
    (run : Gives (analyzeEach visit key value coll body span scope) s node t) :
    Built P scope s node t := by
  simp only [analyzeEach, gives_bind, gives_pure, gives_ofNames] at run
  obtain ⟨coll, middle, first, ⟨value, _⟩, _, ⟨_, named, rfl⟩, ⟨key, _⟩, _,
    ⟨names, namedKey, rfl⟩, body, _, visited, rfl, rfl⟩ := run
  have plain : ∀ name ∈ value :: key.toList, name.Plain :=
    List.forall_mem_cons.mpr ⟨Pattern.nameFor_plain named, Pattern.nameForOption_plain namedKey⟩
  refine builds.built plain ((runs_one (sound first)).append ?_)
  refine .unseen (builds.tracks.lowered temps_lowering.nameFor named) ?_
  refine .unseen (builds.tracks.lowered temps_lowering.nameForOption namedKey) ?_
  exact runs_one (builds.of_analyzeBody sound visited)

theorem of_analyzeForeach (run : Gives (analyzeForeach visit args span scope) s node t) :
    Built P scope s node t := by
  unfold analyzeForeach at run
  split at run
  · exact (not_gives_fail run).elim
  · exact builds.of_analyzeEach sound run
  · exact builds.of_analyzeEach sound run
  · exact (not_gives_fail run).elim
  · exact (not_gives_failAt run).elim

omit sound in
theorem of_analyzeSymbol {symbol : Symbol}
    (run : Gives (analyzeSymbol analyzer.settings symbol scope) s node t) :
    Built P scope s node t := by
  simp only [analyzeSymbol, gives_bind, gives_pure, gives_registry, gives_ofExcept] at run
  obtain ⟨registry, _, ⟨rfl, rfl⟩, shape, _, ⟨resolved, rfl⟩, rfl, rfl⟩ := run
  obtain ⟨lawful, steps⟩ := Resolve.shape_lawful resolved
  exact builds.built lawful (steps ▸ .done _)

theorem of_analyzeHandler {clause : Guarded.Clause} {handler : Handler Node}
    (run : Gives (Guarded.analyzeHandler analyzer.settings visit scope clause) s handler t) :
    handler.Lawful scope ∧ Runs (R none) P s (handler.steps scope) t := by
  unfold Guarded.analyzeHandler at run
  split at run
  · split at run
    next _ symbol _ named =>
      simp only [gives_bind] at run
      obtain ⟨exception, _, resolved, run⟩ := run
      split at run
      · simp only [gives_bind, gives_pure] at run
        obtain ⟨body, _, visited, rfl, rfl⟩ := run
        refine ⟨⟨Form.plainSymbol?_plain named, rfl⟩, ?_⟩
        exact (runs_one (builds.of_analyzeSymbol resolved)).append
          (runs_one (builds.of_analyzeBody sound visited))
      · exact (not_gives_fail run).elim
    · exact (not_gives_fail run).elim
  · exact (not_gives_fail run).elim

theorem of_analyzeHandlers {clauses : List Guarded.Clause} {handlers : List (Handler Node)}
    (run : Gives (Guarded.analyzeHandlers analyzer.settings visit scope clauses) s handlers t) :
    (∀ handler ∈ handlers, handler.Lawful scope) ∧
    Runs (R none) P s (handlers.flatMap (Handler.steps scope)) t := by
  induction clauses generalizing s handlers with
  | nil =>
    obtain ⟨rfl, rfl⟩ := gives_pure.mp run
    exact ⟨by simp, .done _⟩
  | cons clause rest ih =>
    simp only [Guarded.analyzeHandlers, gives_bind, gives_pure] at run
    obtain ⟨handler, _, first, handlers, _, others, rfl, rfl⟩ := run
    obtain ⟨lawfulFirst, runsFirst⟩ := builds.of_analyzeHandler sound first
    obtain ⟨lawful, runs⟩ := ih others
    exact ⟨List.forall_mem_cons.mpr ⟨lawfulFirst, lawful⟩, runsFirst.append runs⟩

theorem of_analyzeCleanup {clause : Option Guarded.Clause} {cleanup : Option Node}
    (run : Gives (Guarded.analyzeCleanup visit scope clause) s cleanup t) :
    Runs (R none) P s (cleanup.toList.map (.visits .inner scope)) t := by
  cases clause with
  | none =>
    obtain ⟨rfl, rfl⟩ := gives_pure.mp run
    exact .done _
  | some clause =>
    simp only [Guarded.analyzeCleanup, gives_bind, gives_pure] at run
    obtain ⟨node, _, visited, rfl, rfl⟩ := run
    exact runs_one (builds.of_analyzeBody sound visited)

theorem of_analyzeGuarded
    (run : Gives (analyzeGuarded analyzer.settings visit args span scope) s node t) :
    Built P scope s node t := by
  simp only [analyzeGuarded, gives_bind, gives_ofExcept] at run
  obtain ⟨parts, _, ⟨_, rfl⟩, run⟩ := run
  split at run
  · exact builds.of_analyzeBody sound run
  · simp only [Guarded.analyzeParts, gives_bind, gives_pure] at run
    obtain ⟨body, _, first, handlers, _, second, cleanup, _, third, rfl, rfl⟩ := run
    obtain ⟨lawful, runs⟩ := builds.of_analyzeHandlers sound second
    refine builds.built lawful (((runs_one ?_).append runs).append ?_)
    · exact builds.of_analyzeBody sound first
    · exact builds.of_analyzeCleanup sound third

theorem of_analyzeDefine
    (permitted : ∀ write ∈ SpecialForm.define.write? args, allows write)
    (run : Gives (analyzeDefine visit args span scope) s node t) :
    Built P scope s node t := by
  unfold analyzeDefine at run
  split at run
  next allowed =>
    simp only [visitBoth, gives_bind, gives_pure, gives_ofExcept, gives_registry,
      gives_onFailure] at run
    obtain ⟨_, _, ⟨_, rfl⟩, name, _, ⟨named, rfl⟩, metadata, _, ⟨_, rfl⟩, registry, _,
      ⟨rfl, rfl⟩, previous, _, defined, _, _, ⟨first, _, atFirst, second, _, atSecond, rfl, rfl⟩,
      rfl, rfl⟩ := run
    have writes : allows (.definition name.base) :=
      permitted _ (by simp [SpecialForm.write?, definedName_eq_ok named])
    refine builds.built allowed (.unseen ((builds.tracks.of_define writes).of_run defined) ?_)
    exact (runs_one (sound atFirst)).append (runs_one (sound atSecond))
  next => exact (not_gives_fail run).elim

theorem of_analyzeAssign
    (run : Gives (analyzeAssign analyzer.settings visit args span scope) s node t) :
    Built P scope s node t := by
  unfold analyzeAssign at run
  split at run
  · split at run
    · exact (not_gives_fail run).elim
    · simp only [gives_bind] at run
      obtain ⟨target, _, resolved, run⟩ := run
      split at run
      · simp only [gives_bind, gives_pure] at run
        obtain ⟨value, _, visited, rfl, rfl⟩ := run
        refine builds.built trivial ?_
        exact (runs_one (builds.of_analyzeSymbol resolved)).append (runs_one (sound visited))
      · exact (not_gives_fail run).elim
  · exact (not_gives_fail run).elim

theorem of_analyzeMethods {definition : Definition} {declared : List String}
    {fields : List Symbol} {forms : List Struct.MethodForm} {methods : List (StructMethod Node)}
    (run : Gives (Struct.analyzeMethods visit definition declared scope forms) s methods t) :
    (∀ method ∈ methods, method.scope = scope ∧ method.lambda.Lawful method.scope) ∧
    Runs (R none) P s (methods.flatMap fun method => method.lambda.steps scope fields) t := by
  induction forms generalizing s methods with
  | nil =>
    obtain ⟨rfl, rfl⟩ := gives_pure.mp run
    exact ⟨by simp, .done _⟩
  | cons form rest ih =>
    simp only [Struct.analyzeMethods, gives_bind, gives_pure, gives_ofExcept] at run
    obtain ⟨name, _, ⟨_, rfl⟩, lambda, _, first, methods, _, others, rfl, rfl⟩ := run
    obtain ⟨lawfulFirst, runsFirst⟩ := builds.of_analyzeLambda sound first
    obtain ⟨lawful, runs⟩ := ih others
    exact ⟨List.forall_mem_cons.mpr ⟨⟨rfl, lawfulFirst⟩, lawful⟩, runsFirst.append runs⟩

theorem of_analyzeGroups {fields : List Symbol} {groups : List Struct.Group}
    {interfaces : List (Implementation Node)}
    (run : Gives (Struct.analyzeGroups analyzer.settings visit scope groups) s interfaces t) :
    (∀ implementation ∈ interfaces, ∀ method ∈ implementation.methods,
      method.scope = scope ∧ method.lambda.Lawful method.scope) ∧
    Runs (R none) P s (interfaces.flatMap fun implementation =>
      .resolves implementation.interface ::
        implementation.methods.flatMap fun method => method.lambda.steps scope fields) t := by
  induction groups generalizing s interfaces with
  | nil =>
    obtain ⟨rfl, rfl⟩ := gives_pure.mp run
    exact ⟨by simp, .done _⟩
  | cons group rest ih =>
    simp only [Struct.analyzeGroups, Struct.analyzeGroup, gives_bind, gives_pure, gives_ofExcept,
      gives_registry] at run
    obtain ⟨implementation, _, ⟨registry, _, ⟨rfl, rfl⟩, _, _, ⟨looked, rfl⟩, methods, _, first,
      run⟩, implementations, _, others, rfl, rfl⟩ := run
    have declared := (Struct.interface?_eq_ok looked).2
    obtain ⟨lawfulFirst, runsFirst⟩ := builds.of_analyzeMethods sound first
    obtain ⟨lawful, runs⟩ := ih others
    split at run
    · obtain ⟨rfl, rfl⟩ := gives_pure.mp run
      refine ⟨List.forall_mem_cons.mpr ⟨lawfulFirst, lawful⟩, .resolves declared ?_⟩
      exact runsFirst.append runs
    · exact (not_gives_fail run).elim

theorem of_analyzeDefStruct
    (permitted : ∀ write ∈ SpecialForm.defStruct.write? args, allows write)
    (run : Gives (analyzeDefStruct analyzer.settings visit args span scope) s node t) :
    Built P scope s node t := by
  unfold analyzeDefStruct at run
  split at run
  · exact (not_gives_fail run).elim
  · simp only [gives_bind, gives_pure, gives_ofExcept, gives_registry] at run
    obtain ⟨name, _, ⟨named, rfl⟩, fields, _, ⟨read, rfl⟩, registry, _, ⟨rfl, rfl⟩, previous, _,
      defined, groups, _, ⟨_, rfl⟩, interfaces, _, visited, rfl, rfl⟩ := run
    obtain ⟨lawful, runs⟩ := builds.of_analyzeGroups sound visited
    have allowed : allows (.definition name.base) :=
      permitted _ (by simp [SpecialForm.write?, definedName_eq_ok named])
    refine builds.built ⟨Struct.fields_plain read, lawful⟩ ?_
    exact .unseen ((builds.tracks.of_define allowed).of_run defined) runs

theorem of_analyzeHostNew (run : Gives (analyzeHostNew visit args span scope) s node t) :
    Built P scope s node t := by
  unfold analyzeHostNew at run
  split at run
  · exact (not_gives_fail run).elim
  · simp only [gives_bind, gives_pure] at run
    obtain ⟨cls, _, first, args, _, others, rfl, rfl⟩ := run
    exact builds.built trivial ((runs_one (sound first)).append (runs_visitAll sound others))

theorem of_analyzeHostMember {form : SpecialForm} {static : Bool}
    (run : Gives (analyzeHostMember form static visit args span scope) s node t) :
    Built P scope s node t := by
  unfold analyzeHostMember at run
  split at run
  · simp only [gives_bind] at run
    obtain ⟨target, _, first, run⟩ := run
    split at run
    · split at run
      · simp only [gives_bind, gives_pure] at run
        obtain ⟨args, _, others, rfl, rfl⟩ := run
        exact builds.built trivial ((runs_one (sound first)).append (runs_visitAll sound others))
      · exact (not_gives_failAt run).elim
    · split at run
      · obtain ⟨rfl, rfl⟩ := gives_pure.mp run
        exact builds.built trivial (runs_one (sound first))
      · exact (not_gives_failAt run).elim
  · exact (not_gives_fail run).elim

theorem of_analyzeHostPropertySet
    (run : Gives (analyzeHostPropertySet visit args span scope) s node t) :
    Built P scope s node t := by
  unfold analyzeHostPropertySet at run
  split at run
  · simp only [gives_bind] at run
    obtain ⟨target, _, first, value, _, second, run⟩ := run
    split at run
    · obtain ⟨rfl, rfl⟩ := gives_pure.mp run
      exact builds.built trivial ((runs_one (sound first)).append (runs_one (sound second)))
    · exact (not_gives_fail run).elim
  · exact (not_gives_fail run).elim

theorem of_analyzeHostPair {form : SpecialForm} {shape : Node → Node → Shape Node}
    (run : Gives (analyzeHostPair form shape visit args span scope) s node t)
    (lawful : ∀ {first second registry},
      (shape first second).Lawful analyzer.settings.coreNamespace registry scope)
    (steps : ∀ {first second}, (shape first second).steps scope =
      [first, second].map (.visits .inner scope.argument)) : Built P scope s node t := by
  unfold analyzeHostPair at run
  split at run
  · simp only [gives_bind, gives_pure] at run
    obtain ⟨first, _, atFirst, second, _, atSecond, rfl, rfl⟩ := run
    refine builds.built lawful (steps ▸ ?_)
    exact (runs_one (sound atFirst)).append (runs_one (sound atSecond))
  · exact (not_gives_fail run).elim

theorem of_analyzeHostArraySet
    (run : Gives (analyzeHostArraySet visit args span scope) s node t) :
    Built P scope s node t := by
  unfold analyzeHostArraySet at run
  split at run
  · simp only [gives_bind, gives_pure] at run
    obtain ⟨array, _, first, index, _, second, value, _, third, rfl, rfl⟩ := run
    refine builds.built trivial ?_
    exact (runs_one (sound first)).append
      ((runs_one (sound second)).append (runs_one (sound third)))
  · exact (not_gives_fail run).elim

omit sound in
/-- A node without parts that depends on nothing around it. -/
theorem built_leaf {shape : Shape Node}
    (lawful : shape.Lawful analyzer.settings.coreNamespace s.registry scope)
    (steps : shape.steps scope = []) (changed : R none s t) :
    Built P scope s (.mk scope span shape) t :=
  builds.built lawful (steps ▸ .unseen changed (.done _))

omit sound in
theorem of_analyzeDefInterface
    (permitted : ∀ write ∈ SpecialForm.defInterface.write? args, allows write)
    (run : Gives (analyzeDefInterface args span scope) s node t) : Built P scope s node t := by
  have changed : R none s t := (builds.tracks.of_analyzeDefInterface permitted).of_run run
  unfold analyzeDefInterface at run
  split at run
  · exact (not_gives_fail run).elim
  · simp only [gives_bind, gives_pure] at run
    obtain ⟨_, _, _, _, _, _, _, _, _, _, _, _, _, _, _, rfl, rfl⟩ := run
    exact builds.built_leaf trivial rfl changed

omit sound in
theorem of_analyzeDefException
    (permitted : ∀ write ∈ SpecialForm.defException.write? args, allows write)
    (run : Gives (analyzeDefException args span scope) s node t) : Built P scope s node t := by
  have changed : R none s t := (builds.tracks.of_analyzeDefException permitted).of_run run
  unfold analyzeDefException at run
  split at run
  · simp only [gives_bind, gives_pure] at run
    obtain ⟨_, _, _, _, _, _, _, _, _, rfl, rfl⟩ := run
    exact builds.built_leaf trivial rfl changed
  · exact (not_gives_fail run).elim

omit sound in
theorem of_analyzeNs (allowed : allows .switch)
    (run : Gives (analyzeNs analyzer.settings args span scope) s node t) :
    Built P scope s node t := by
  have changed : R none s t := (builds.tracks.of_analyzeNs allowed).of_run run
  simp only [analyzeNs, gives_bind, gives_pure] at run
  obtain ⟨_, _, _, _, _, _, rfl, rfl⟩ := run
  exact builds.built_leaf trivial rfl changed

omit sound in
theorem of_analyzeInNs (allowed : allows .switch)
    (run : Gives (analyzeInNs analyzer.settings args span scope) s node t) :
    Built P scope s node t := by
  have changed : R none s t := (builds.tracks.of_analyzeInNs allowed).of_run run
  unfold analyzeInNs at run
  split at run
  · simp only [gives_bind, gives_pure] at run
    obtain ⟨_, _, _, _, _, _, _, _, _, rfl, rfl⟩ := run
    exact builds.built_leaf trivial rfl changed
  · exact (not_gives_fail run).elim

omit sound in
theorem of_analyzeQuote (run : Gives (analyzeQuote args span scope) s node t) :
    Built P scope s node t := by
  unfold analyzeQuote at run
  split at run
  · obtain ⟨rfl, rfl⟩ := gives_pure.mp run
    exact builds.built_leaf trivial rfl builds.tracks.refl
  · exact (not_gives_fail run).elim

theorem of_analyzeSpecial {form : SpecialForm}
    (permitted : ∀ write ∈ form.write? args, allows write)
    (run : Gives (analyzer.analyzeSpecial visit form args span scope) s node t) :
    Built P scope s node t := by
  cases form with
  | define => exact builds.of_analyzeDefine sound permitted run
  | fn => exact builds.of_analyzeFn sound run
  | letIn => exact builds.of_analyzeLet sound run
  | loop => exact builds.of_analyzeLoop sound run
  | block => exact builds.of_analyzeBody sound run
  | branch => exact builds.of_analyzeBranch sound run
  | recur => exact builds.of_analyzeRecur sound run
  | quote => exact builds.of_analyzeQuote run
  | apply => exact builds.of_analyzeApply sound run
  | guarded => exact builds.of_analyzeGuarded sound run
  | throw => exact builds.of_analyzeThrow sound run
  | assign => exact builds.of_analyzeAssign sound run
  | foreach => exact builds.of_analyzeForeach sound run
  | ns => exact builds.of_analyzeNs (permitted _ rfl) run
  | inNs => exact builds.of_analyzeInNs (permitted _ rfl) run
  | defStruct => exact builds.of_analyzeDefStruct sound permitted run
  | defInterface => exact builds.of_analyzeDefInterface permitted run
  | defException => exact builds.of_analyzeDefException permitted run
  | hostNew => exact builds.of_analyzeHostNew sound run
  | hostMember => exact builds.of_analyzeHostMember sound run
  | hostStaticMember => exact builds.of_analyzeHostMember sound run
  | hostPropertySet => exact builds.of_analyzeHostPropertySet sound run
  | hostArrayGet => exact builds.of_analyzeHostPair sound run trivial rfl
  | hostArraySet => exact builds.of_analyzeHostArraySet sound run
  | hostArrayPush => exact builds.of_analyzeHostPair sound run trivial rfl
  | hostArrayUnset => exact builds.of_analyzeHostPair sound run trivial rfl

end Rules

section Descent

variable {visit expand : Visit} (sound : Sound P visit) (expansions : Sound P expand)
variable (expands : Follows R expand)

include sound expansions expands

theorem of_analyzeCall {head : Form}
    (run : Gives (analyzeCall analyzer.settings analyzer.host visit expand head args span scope)
      s node t) : Built P scope s node t := by
  simp only [analyzeCall, gives_bind] at run
  obtain ⟨expansion, middle, expanded, run⟩ := run
  have changed : R none s middle :=
    (builds.tracks.of_expanded fun form => expands form .top).of_run expanded
  split at run
  · exact builds.built_after changed (expansions run)
  · simp only [gives_bind, gives_pure] at run
    obtain ⟨callee, _, first, args, _, others, rfl, rfl⟩ := run
    refine builds.built trivial (.unseen changed ?_)
    exact (runs_one (sound first)).append (runs_visitAll sound others)

theorem of_analyzeForm {form : Form}
    (permitted : ∀ head args span metadata special, form = .list (head :: args) span metadata →
      Analyzer.special? head = some special → ∀ write ∈ special.write? args, allows write)
    (run : Gives (analyzer.analyzeForm visit expand form scope) s node t) :
    Built P scope s node t := by
  unfold Analyzer.analyzeForm at run
  split at run
  · exact builds.of_analyzeSymbol run
  · split at run
    next found => exact builds.of_analyzeSpecial sound (permitted _ _ _ _ _ rfl found) run
    next => exact builds.of_analyzeCall sound expansions expands run
  · exact builds.of_analyzeVector sound run
  · exact builds.of_analyzeMap sound run
  · obtain ⟨rfl, rfl⟩ := gives_pure.mp run
    exact builds.built_leaf trivial rfl builds.tracks.refl

end Descent

end Constructs

namespace Builds

variable {analyzer : Analyzer} {R : Option Frame → State → State → Prop}
variable {P : State → Node → State → Prop} (builds : Builds analyzer R P)

include builds

theorem sound_descend {expand : Visit} (expansions : Sound P expand) (expands : Follows R expand)
    (depth : Nat) : Sound P (analyzer.descend expand depth) := by
  induction depth with
  | zero => exact fun run => (not_gives_failAt run).elim
  | succ depth ih =>
    intro form scope s node t run
    exact builds.of_analyzeForm ih expansions expands (fun _ _ _ _ _ _ _ _ _ => trivial) run

theorem sound_analyzeWithin (limit : Nat) : Sound P (analyzer.analyzeWithin limit) := by
  induction limit with
  | zero =>
    intro form scope s node t run
    refine builds.sound_descend ?_ ?_ (Analyzer.stepsFor form) run
    · exact fun impossible => (not_gives_failAt impossible).elim
    · exact fun _ _ => builds.tracks.of_failAt
  | succ limit ih =>
    intro form scope s node t run
    exact builds.sound_descend ih (Tracks.follows_analyzeWithin builds.tracks limit)
      (Analyzer.stepsFor form) run

/-- What passes from the parts of a node to the node holds of every tree. -/
theorem sound_analyze : Sound P analyzer.analyze :=
  builds.sound_analyzeWithin analyzer.expansionLimit

end Builds

end LispFront
