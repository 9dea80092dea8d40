import Mathlib.Data.List.Flatten
import Mathlib.Data.List.Perm.Subperm
import LispFront.Proofs.Renumbering

/-! Whatever is analyzed one after the other from one supply of names, and whatever of it fails, no
name is handed out twice (`generated_names_distinct`). The record of the supply says what was drawn
on the way. Trees, and what the host is given, show names of the record, each an entry of its
own. -/

namespace LispFront

/-- What the name that a binding goes under was drawn for. -/
def BoundName.drawn? (bound : BoundName) : Option (Draw × Symbol) :=
  bound.shadow.map fun shadow => (.shadow bound.symbol.base, shadow)

/-- All names that were drawn for bindings of a tree. -/
def Node.drawn (node : Node) : List (Draw × Symbol) := node.bound.filterMap BoundName.drawn?

theorem Node.drawn_eq (node : Node) :
    node.drawn =
      node.shape.bound.filterMap BoundName.drawn? ++ node.children.flatMap Node.drawn := by
  rw [Node.drawn, Node.bound_eq, List.filterMap_append, List.filterMap_flatMap]
  rfl

theorem Node.map_drawn (node : Node) : node.drawn.map Prod.snd = node.shadows := by
  rw [Node.drawn, Node.shadows, List.map_filterMap]
  congr 1
  funext bound
  cases bound with
  | mk symbol shadow => cases shadow <;> rfl

/-- Between the states names were handed out, these among them. -/
def HandsOut (drawn : List (Draw × Symbol)) (s t : State) : Prop :=
  ∃ draws, t.names = s.names.after draws ∧ drawn.Subperm (s.names.handOut draws)

namespace HandsOut

variable {first second drawn : List (Draw × Symbol)} {s t u : State}

theorem refl : HandsOut [] s s := ⟨[], rfl, List.nil_subperm⟩

theorem trans (earlier : HandsOut first s t) (later : HandsOut second t u) :
    HandsOut (first ++ second) s u := by
  obtain ⟨draws, moved, here⟩ := earlier
  obtain ⟨more, movedOn, there⟩ := later
  refine ⟨draws ++ more, ?_, ?_⟩
  · rw [movedOn, moved, NameSupply.after_append]
  · rw [NameSupply.handOut_append, ← moved]
    exact here.append there

theorem fewer (sub : first.Subperm second) (handsOut : HandsOut second s t) :
    HandsOut first s t := by
  obtain ⟨draws, moved, inside⟩ := handsOut
  exact ⟨draws, moved, sub.trans inside⟩

theorem of_names (same : t.names = s.names) : HandsOut [] s t :=
  ⟨[], same, List.nil_subperm⟩

theorem issue (draw : Draw) :
    HandsOut [(draw, (s.names.issue draw).1)] s { s with names := (s.names.issue draw).2 } :=
  ⟨[draw], rfl, List.Subperm.refl _⟩

end HandsOut

/-- No step starts the numbers anew, whatever the steps before it gave. -/
def HostAction.KeepsNames : HostAction → Prop
  | .done _ => True
  | .drawName _ next => ∀ symbol, (next symbol).KeepsNames
  | .restartNames _ => False
  | .changeRegistry _ next => ∀ registry, (next registry).KeepsNames
  | .analyze _ next => ∀ result, (next result).KeepsNames

def Host.KeepsNames (host : Host) : Prop :=
  ∀ callable args site, (host.invoke callable args site).KeepsNames

/-- Carried out from a state, the action ends like this and is given these names on the way: those
that it asks for, and those that an analysis shows to it. Which names these are, the steps leave
open. -/
inductive HostAction.Receives (reenter : Form → AnalyzeM Node)
    (shown : Except AnalysisError Node → List (Draw × Symbol)) :
    HostAction → State → List (Draw × Symbol) → Except HostError Form × State → Prop where
  | done (result : Except HostError Form) (s : State) :
      Receives reenter shown (.done result) s [] (result, s)
  | drawName {stem : String} {next : Symbol → HostAction} {s : State} {symbol : Symbol}
      {names : NameSupply} {received : List (Draw × Symbol)}
      {outcome : Except HostError Form × State}
      (rest : Receives reenter shown (next symbol) { s with names } received outcome) :
      Receives reenter shown (.drawName stem next) s ((.asked stem, symbol) :: received) outcome
  | restartNames {next : HostAction} {s : State} {received : List (Draw × Symbol)}
      {outcome : Except HostError Form × State}
      (rest : Receives reenter shown next { s with names := .restart } received outcome) :
      Receives reenter shown (.restartNames next) s received outcome
  | changeRegistry {change : Registry → Registry} {next : Registry → HostAction} {s : State}
      {received : List (Draw × Symbol)} {outcome : Except HostError Form × State}
      (rest : Receives reenter shown (next (change s.registry))
        { s with registry := change s.registry } received outcome) :
      Receives reenter shown (.changeRegistry change next) s received outcome
  | analyze {form : Form} {next : Except AnalysisError Node → HostAction} {s : State}
      {received : List (Draw × Symbol)} {outcome : Except HostError Form × State}
      (rest : Receives reenter shown (next (reenter form s).1) (reenter form s).2 received
        outcome) :
      Receives reenter shown (.analyze form next) s (shown (reenter form s).1 ++ received) outcome

/-- What an action is given was handed out to it. -/
theorem HostAction.KeepsNames.receives {reenter : Form → AnalyzeM Node}
    {shown : Except AnalysisError Node → List (Draw × Symbol)}
    (reenters : ∀ form s, HandsOut (shown (reenter form s).1) s (reenter form s).2)
    {action : HostAction} (keeps : action.KeepsNames) (s : State) : ∃ received,
    action.Receives reenter shown s received (action.run reenter s) ∧
      HandsOut received s (action.run reenter s).2 := by
  induction action generalizing s with
  | done result => exact ⟨[], .done result s, .refl⟩
  | drawName stem next ih =>
    obtain ⟨received, receives, handsOut⟩ := ih _ (keeps _) _
    exact ⟨_, .drawName receives, (HandsOut.issue (.asked stem)).trans handsOut⟩
  | restartNames next ih => exact keeps.elim
  | changeRegistry change next ih =>
    obtain ⟨received, receives, handsOut⟩ := ih _ (keeps _) { s with registry := change s.registry }
    exact ⟨received, .changeRegistry receives, (HandsOut.of_names rfl).trans handsOut⟩
  | analyze form next ih =>
    obtain ⟨received, receives, handsOut⟩ := ih _ (keeps _) (reenter form s).2
    exact ⟨_, .analyze receives, (reenters form s).trans handsOut⟩

theorem tracks_handsOut {analyzer : Analyzer} (keeps : analyzer.host.KeepsNames) :
    Tracks analyzer fun _ => HandsOut [] where
  refl := .refl
  trans := .trans
  inner kept := kept
  names draws := ⟨draws, rfl, List.nil_subperm⟩
  opens kept := kept
  restarts := .of_names rfl
  host {callable args site reenter s} reenters := by
    obtain ⟨received, _, handsOut⟩ :=
      @HostAction.KeepsNames.receives reenter (fun _ => []) reenters _ (keeps callable args site) s
    exact handsOut.fewer List.nil_subperm
  change _ change := by cases change <;> exact .of_names rfl
  undo _ _ kept := kept

namespace Step

/-- The name that a step draws for a binding. -/
def named? : Step Node → Option (Draw × Symbol)
  | .names symbol shadow => some (.shadow symbol.base, shadow)
  | _ => none

/-- The names that a step draws for bindings, those inside of a part included. -/
def drawn : Step Node → List (Draw × Symbol)
  | .names symbol shadow => [(.shadow symbol.base, shadow)]
  | .visits _ _ node => node.drawn
  | _ => []

theorem perm_drawn (steps : List (Step Node)) :
    (steps.filterMap named? ++ (steps.filterMap part?).flatMap fun part => part.2.drawn).Perm
      (steps.flatMap drawn) := by
  induction steps with
  | nil => exact .refl _
  | cons step rest ih =>
    cases step with
    | names symbol shadow => exact .cons _ ih
    | visits place scope node =>
      simp only [List.filterMap_cons, named?, part?, List.flatMap_cons, drawn]
      exact (List.perm_append_comm_assoc _ _ _).trans (ih.append_left _)
    | _ => exact ih

end Step

theorem filterMap_drawn_written (symbols : List Symbol) :
    (symbols.map BoundName.written).filterMap BoundName.drawn? = [] := by
  simp [List.filterMap_map, Function.comp_def, BoundName.drawn?, BoundName.written]

theorem Binding.filterMap_named (scope : Scope) (earlier : List BoundName)
    (bindings : List (Binding Node)) :
    (Binding.steps scope earlier bindings).filterMap Step.named? =
      (bindings.map Binding.bound).filterMap BoundName.drawn? := by
  induction bindings generalizing scope earlier with
  | nil => rfl
  | cons binding rest ih =>
    simp only [Binding.steps, List.filterMap_cons, Step.named?, ih, List.map_cons]
    rfl

/-- Names are drawn for the bindings of a `let` or `loop` and for nothing else. -/
theorem Shape.filterMap_named (scope : Scope) (shape : Shape Node) :
    (shape.steps scope).filterMap Step.named? = shape.bound.filterMap BoundName.drawn? := by
  cases shape with
  | letIn bindings body =>
    simp [Shape.steps, Shape.bound, Binding.filterMap_named, Step.named?]
  | loop frame bindings body =>
    simp [Shape.steps, Shape.bound, Binding.filterMap_named, Step.named?, List.filterMap_cons]
  | fn lambda => exact (filterMap_drawn_written lambda.params).symm
  | foreach value key coll body => exact (filterMap_drawn_written (value :: key.toList)).symm
  | guarded body handlers cleanup =>
    simp [Shape.steps, Shape.bound, Handler.steps, Step.named?, BoundName.drawn?,
      BoundName.written, List.filterMap_cons, List.filterMap_flatMap, List.filterMap_map,
      Function.comp_def]
  | defStruct home name fields interfaces =>
    simp only [Shape.steps, Shape.bound, Lambda.steps, Step.named?, List.filterMap_append,
      List.filterMap_flatMap, List.filterMap_cons, List.filterMap_nil, filterMap_drawn_written]
    simp
  | _ => simp [Shape.steps, Shape.children, Shape.bound, Step.named?]

/-- What a node shows of the names that were drawn, its steps have drawn. -/
theorem Shape.drawn_subperm (scope : Scope) (shape : Shape Node) :
    (shape.bound.filterMap BoundName.drawn? ++ shape.children.flatMap Node.drawn).Subperm
      ((shape.steps scope).flatMap Step.drawn) := by
  -- The class of a handler is visited as a part, but is no child.
  have parts : (shape.children.flatMap Node.drawn).Sublist
      (((shape.steps scope).filterMap Step.part?).flatMap fun part => part.2.drawn) := by
    have kept := shape.children_sublist_parts.flatMap Node.drawn
    rw [Shape.filterMap_steps]
    rwa [List.flatMap_map] at kept
  have named := Shape.filterMap_named scope shape
  rw [← named]
  exact ((List.Sublist.refl _).append parts).subperm.trans (Step.perm_drawn _).subperm

theorem Runs.handsOut {s t : State} {steps : List (Step Node)}
    (runs : Runs (HandsOut []) (fun s node t => HandsOut node.drawn s t) s steps t) :
    HandsOut (steps.flatMap Step.drawn) s t := by
  induction runs with
  | done => exact .refl
  | unseen changed _ ih => exact changed.trans ih
  | opens _ ih => exact ih
  | restarts _ ih => exact ih
  | @names s t symbol steps _ ih =>
    exact (HandsOut.issue (.shadow symbol.base)).trans ih
  | resolves _ _ ih => exact ih
  | visits _ visited _ ih => exact visited.trans ih

/-- The bindings of a tree go under names that its analysis has drawn, each of them under one of
its own. -/
theorem builds_handsOut {analyzer : Analyzer} (keeps : analyzer.host.KeepsNames) :
    Builds analyzer (fun _ => HandsOut []) (fun s node t => HandsOut node.drawn s t) where
  tracks := tracks_handsOut keeps
  node {scope span shape s t} _ runs := by
    rw [Node.drawn_eq]
    exact runs.handsOut.fewer (shape.drawn_subperm scope)
  after changed built := changed.trans built

theorem liftM_eq {α : Type} (step : StateM State α) (s : State) :
    (liftM step : AnalyzeM α) s = (.ok (step s).1, (step s).2) := rfl

/-- A call of the host is the run of its action, and reports what the action ends with. -/
theorem run_of_callHost {host : Host} {reenter : Form → AnalyzeM Node} {callable : Callable}
    {args : List Form} {span : Option Span} {s t : State} {outcome : Except AnalysisError Form}
    (call : Call.callHost host reenter callable args span s = (outcome, t)) :
    ∃ result, outcome.toOption = result.toOption ∧
      (host.invoke callable args { ns := s.registry.current, span }).run reenter s =
        (result, t) := by
  let action := host.invoke callable args { ns := s.registry.current, span }
  unfold Call.callHost at call
  rw [bind_of_ok (gives_registry.mpr ⟨rfl, rfl⟩)] at call
  rcases ran : action.run reenter s with ⟨result, u⟩
  have lifted : (liftM (action.run reenter) : AnalyzeM (Except HostError Form)) s =
      (.ok result, u) := by
    rw [liftM_eq, ran]
  rw [bind_of_ok lifted] at call
  cases result with
  | ok form =>
    obtain ⟨rfl, rfl⟩ := Prod.mk.inj call
    exact ⟨.ok form, rfl, rfl⟩
  | error error =>
    obtain ⟨rfl, rfl⟩ := Prod.mk.inj call
    exact ⟨.error error, rfl, rfl⟩

/-- The names drawn for bindings that the outcome of an analysis shows. -/
def shownBy : Except AnalysisError Node → List (Draw × Symbol)
  | .ok node => node.drawn
  | .error _ => []

namespace Analyzer

variable {analyzer : Analyzer} (keeps : analyzer.host.KeepsNames)

include keeps

theorem handsOut_analyzeWithin (limit : Nat) (form : Form) (scope : Scope) (s : State) :
    HandsOut (shownBy (analyzer.analyzeWithin limit form scope s).1) s
      (analyzer.analyzeWithin limit form scope s).2 := by
  rcases run : analyzer.analyzeWithin limit form scope s with ⟨error | node, t⟩
  · exact ((tracks_handsOut keeps).follows_analyzeWithin limit form scope).of_run run
  · exact ((builds_handsOut keeps).sound_analyzeWithin limit run).holds

/-- Analyzes forms in their scopes one after the other and gives the trees and the last state. A
form that fails gives no tree and does not end the work. -/
def analyzeAll (analyzer : Analyzer) : List (Form × Scope) → State → List Node × State
  | [], s => ([], s)
  | (form, scope) :: rest, s =>
    match analyzer.analyze form scope s with
    | (.ok node, t) => (node :: (analyzer.analyzeAll rest t).1, (analyzer.analyzeAll rest t).2)
    | (.error _, t) => analyzer.analyzeAll rest t

theorem handsOut_analyzeAll (work : List (Form × Scope)) (s : State) :
    HandsOut ((analyzer.analyzeAll work s).1.flatMap Node.drawn) s
      (analyzer.analyzeAll work s).2 := by
  induction work generalizing s with
  | nil => exact .refl
  | cons call rest ih =>
    obtain ⟨form, scope⟩ := call
    have first := handsOut_analyzeWithin keeps analyzer.expansionLimit form scope s
    unfold analyzeAll analyze
    rcases run : analyzer.analyzeWithin analyzer.expansionLimit form scope s with ⟨error | node, t⟩
    · rw [run] at first
      exact first.trans (ih t)
    · rw [run] at first
      exact first.trans (ih t)

end Analyzer

namespace NameSupply

/-- What the supply has handed out since it was at an earlier one, the latest first. -/
def since (supply earlier : NameSupply) : List (Draw × Symbol) :=
  supply.drawn.take (supply.drawn.length - earlier.drawn.length)

theorem since_after (supply : NameSupply) (draws : List Draw) :
    (supply.after draws).since supply = (supply.handOut draws).reverse := by
  rw [since, drawn_after, List.length_append, Nat.add_sub_cancel, List.take_left]

end NameSupply

/-- From one state to the other all names that the supply hands out are on record and differ, and
these are among them. -/
structure Records (shown : List (Draw × Symbol)) (s t : State) : Prop where
  grows : t.names.drawn = t.names.since s.names ++ s.names.drawn
  counted : t.names.count = s.names.count + (t.names.since s.names).length
  distinct : ((t.names.since s.names).map fun entry => entry.2.name).Nodup
  shown : shown.Subperm (t.names.since s.names)

theorem HandsOut.records {shown : List (Draw × Symbol)} {s t : State}
    (handsOut : HandsOut shown s t) : Records shown s t := by
  obtain ⟨draws, moved, inside⟩ := handsOut
  have fresh : t.names.since s.names = (s.names.handOut draws).reverse := by
    rw [moved, NameSupply.since_after]
  constructor
  · rw [fresh, moved, NameSupply.drawn_after]
  · rw [fresh, moved, NameSupply.count_after, List.length_reverse, NameSupply.length_handOut]
  · rw [fresh, List.map_reverse, (List.reverse_perm _).nodup_iff]
    exact NameSupply.nodup_handOut
  · rw [fresh]
    exact inside.trans (List.reverse_perm _).symm.subperm

theorem Node.draw_of_mem_drawn {node : Node} {entry : Draw × Symbol} (mem : entry ∈ node.drawn) :
    ∃ bound ∈ node.bound, bound.shadow = some entry.2 ∧ entry.1 = .shadow bound.symbol.base := by
  obtain ⟨bound, inside, drawn⟩ := List.mem_filterMap.mp mem
  obtain ⟨shadow, named, rfl⟩ := Option.map_eq_some_iff.mp drawn
  exact ⟨bound, inside, named, rfl⟩

/-- The names for intermediate values among those that were drawn. -/
def temps (drawn : List (Draw × Symbol)) : List Symbol :=
  (drawn.filter fun entry => entry.1 = .temp).map Prod.snd

theorem mem_temps {drawn : List (Draw × Symbol)} {symbol : Symbol} :
    symbol ∈ temps drawn ↔ (.temp, symbol) ∈ drawn := by
  simp [temps]

/-- Entries of their own have names of their own. -/
theorem Records.nodup {shown others : List (Draw × Symbol)} {s t : State}
    (records : Records shown s t) (inside : others.Subperm (t.names.since s.names)) :
    (others.map fun entry => entry.2.name).Nodup := by
  obtain ⟨kept, same, sub⟩ := inside
  exact (same.map _).nodup_iff.mp (records.distinct.sublist (sub.map _))

/-- Bindings that go under names of their own share none of them with intermediate values. -/
theorem Records.nodup_shadows_temps {trees : List Node} {s t : State}
    (records : Records (trees.flatMap Node.drawn) s t) :
    ((trees.flatMap Node.shadows ++ temps (t.names.since s.names)).map Symbol.name).Nodup := by
  let isTemp (entry : Draw × Symbol) : Bool := entry.1 = .temp
  let fresh := t.names.since s.names
  have shadows : trees.flatMap Node.shadows = (trees.flatMap Node.drawn).map Prod.snd := by
    simp only [List.map_flatMap, Node.map_drawn]
  have kept : (trees.flatMap Node.drawn).filter (!isTemp ·) = trees.flatMap Node.drawn := by
    refine List.filter_eq_self.mpr fun entry member => ?_
    obtain ⟨tree, _, inside⟩ := List.mem_flatMap.mp member
    obtain ⟨_, _, _, isShadow⟩ := Node.draw_of_mem_drawn inside
    simp [isTemp, isShadow]
  have others : (trees.flatMap Node.drawn).Subperm (fresh.filter (!isTemp ·)) := by
    rw [← kept]
    exact records.shown.filter _
  have inside : (trees.flatMap Node.drawn ++ fresh.filter isTemp).Subperm fresh :=
    (others.append (.refl _)).trans
      (List.perm_append_comm.trans (List.filter_append_perm isTemp fresh)).subperm
  have distinct := records.nodup inside
  rw [List.map_append] at distinct
  rw [shadows, List.map_append, temps, List.map_map, List.map_map]
  exact distinct

namespace Renumbering

/-- A run beside itself. -/
def itself (core : String) (supply : NameSupply) (reserved : Name → Bool) : Renumbering where
  core := core
  first := supply
  second := supply
  reserved := reserved
  apart _ _ _ := Iff.rfl

/-- Without a host, all names that are bound in the trees are accounted for by what was drawn on
the way. -/
theorem accounts_analyzeAll {analyzer : Analyzer} (unhosted : analyzer.host = .none)
    {reserved : Name → Bool} {start : NameSupply} {work : List (Form × Scope)}
    (avoid : ∀ call ∈ work, call.1.Avoids reserved) {log : List Draw} {s : State}
    (reached : s.names = start.after log) :
    ∃ later, log <+: later ∧ (analyzer.analyzeAll work s).2.names = start.after later ∧
      ∀ tree ∈ (analyzer.analyzeAll work s).1, ∀ bound ∈ tree.bound,
        (itself analyzer.settings.coreNamespace start reserved).Accounts later bound := by
  induction work generalizing log s with
  | nil => exact ⟨log, List.prefix_refl log, reached, List.forall_mem_nil _⟩
  | cons call rest ih =>
    obtain ⟨form, scope⟩ := call
    obtain ⟨formAvoids, restAvoid⟩ := List.forall_mem_cons.mp avoid
    let two := itself analyzer.settings.coreNamespace start reserved
    have outcomes : Outcomes two.States two.Trees log (analyzer.analyze form scope s)
        (analyzer.analyze form scope s) :=
      coupled_analyze rfl unhosted formAvoids scope s s
        ⟨⟨reached, log, List.forall₂_same.mpr fun draw _ => .refl draw, reached⟩, rfl⟩
    unfold Analyzer.analyzeAll
    rcases run : analyzer.analyze form scope s with ⟨error | node, t⟩
    · rw [run] at outcomes
      cases outcomes with
      | error grown states =>
        obtain ⟨later, more, moved, accounts⟩ := ih restAvoid states.names.first
        exact ⟨later, grown.trans more, moved, accounts⟩
    · rw [run] at outcomes
      cases outcomes with
      | ok grown states trees =>
        obtain ⟨later, more, moved, accounts⟩ := ih restAvoid states.names.first
        refine ⟨later, grown.trans more, moved, List.forall_mem_cons.mpr ⟨?_, accounts⟩⟩
        exact fun bound member => (trees.accounts bound member).grow more

end Renumbering

/-- Some form of the work mentions the name. -/
def mentionedIn (work : List (Form × Scope)) (name : Name) : Bool :=
  work.any fun call => call.1.mentions name.only

theorem avoids_unmentioned (work : List (Form × Scope)) :
    ∀ call ∈ work, call.1.Avoids fun name => !mentionedIn work name := by
  intro call member
  rw [Form.Avoids, Bool.eq_false_iff]
  intro mentioned
  obtain ⟨name, unmentioned, found⟩ := call.1.mentions_only mentioned
  have isMentioned : mentionedIn work name = true := List.any_eq_true.mpr ⟨call, member, found⟩
  rw [isMentioned] at unmentioned
  contradiction

/-- With a host that never restarts the numbers, all names that are handed out differ, also where
an analysis fails and inside of the host: those of all bindings in all trees, those for
intermediate values and those for the host. They are on record, each with what it was drawn for,
and every name of a binding is an entry of its own. Without a host, a name that is bound stands in
the work or was drawn for an intermediate value. What a call of the host is given, in names that it
asks for and in trees, is on record too. -/
theorem generated_names_distinct {analyzer : Analyzer} (keeps : analyzer.host.KeepsNames)
    {work : List (Form × Scope)} {s t : State} {trees : List Node}
    (run : analyzer.analyzeAll work s = (trees, t)) :
    Records (trees.flatMap Node.drawn) s t ∧
    ((trees.flatMap Node.shadows ++ temps (t.names.since s.names)).map Symbol.name).Nodup ∧
    (analyzer.host = .none → ∀ tree ∈ trees, ∀ bound ∈ tree.bound,
      mentionedIn work bound.symbol.name = true ∨
        ∃ temp ∈ temps (t.names.since s.names), bound.symbol.name = temp.name) ∧
    ∀ limit callable args span u v outcome,
      Call.callHost analyzer.host (analyzer.analyzeWithin limit · .top) callable args span u =
        (outcome, v) →
      ∃ received result, outcome.toOption = result.toOption ∧
        (analyzer.host.invoke callable args { ns := u.registry.current, span }).Receives
          (analyzer.analyzeWithin limit · .top) shownBy u received (result, v) ∧
        Records received u v := by
  have handsOut := Analyzer.handsOut_analyzeAll keeps work s
  rw [run] at handsOut
  refine ⟨handsOut.records, handsOut.records.nodup_shadows_temps, ?_, ?_⟩
  · intro unhosted tree inTrees bound isBound
    obtain ⟨draws, _, moved, accounts⟩ :=
      Renumbering.accounts_analyzeAll unhosted (avoids_unmentioned work) s.names.after_nil.symm
    rw [run] at moved accounts
    rcases accounts tree inTrees bound isBound with written | ⟨temp, drawn, same⟩
    · exact .inl (Bool.not_eq_eq_eq_not.mp written)
    · refine .inr ⟨temp, mem_temps.mpr ?_, same⟩
      rw [moved, NameSupply.since_after]
      exact List.mem_reverse.mpr drawn
  · intro limit callable args span u v outcome call
    obtain ⟨result, same, ran⟩ := run_of_callHost call
    obtain ⟨received, receives, given⟩ :=
      (keeps callable args { ns := u.registry.current, span }).receives
        (fun form => Analyzer.handsOut_analyzeWithin keeps limit form .top) u
    rw [ran] at receives given
    exact ⟨received, result, same, receives, given.records⟩

/-- The form `(let [target value] body)`. -/
def Form.bindingOne (target : Form) (value : Int) (body : Form) : Form :=
  .list [.plainSymbol "let", .vector [target, .int value] none [], body] none []

/-- A host whose functions bind a name that they ask for inside of another one. -/
def Host.nesting : Host where
  label := "nesting"
  invoke _ _ _ := .drawName "a" fun outer => .drawName "a" fun inner =>
    .done (.ok (.bindingOne outer.form 1 (.bindingOne inner.form 2 inner.form)))

theorem Host.keepsNames_nesting : Host.nesting.KeepsNames := fun _ _ _ _ _ => trivial

open Form in
/-- `(let [a 1] (let [a_1 2] a_1))`, then `(let [[b] 1] c)`, which fails, then a `let` that takes a
value apart, then a call of the macro `nest`. -/
def sampleWork : List (Form × Scope) :=
  [(bindingOne (plainSymbol "a") 1 (bindingOne (plainSymbol "a_1") 2 (plainSymbol "a_1")), .top),
    (bindingOne (vector [plainSymbol "b"] none []) 1 (plainSymbol "c"), .top),
    (destructuringLet, .top), (list [plainSymbol "nest"] none [], .top)]

def sampleStart : State where
  registry := Registry.withAccessors.withDefinition "user" "nest" (Entries.flagged "macro")

def sampleRun : List Node × State :=
  ({ host := .nesting } : Analyzer).analyzeAll sampleWork sampleStart

set_option maxRecDepth 10000 in
/-- In the sample six bindings of trees get names, though some are called like the name of another,
and two intermediate values do, one of them where the analysis fails. -/
theorem generated_names_distinct_sample :
    Host.nesting.KeepsNames ∧
      (sampleRun.1.flatMap Node.shadows).map Symbol.base =
        ["a_1", "a_1_2", "__tmp_6_7", "a_8", "a_9_11", "a_10_12"] ∧
      (temps (sampleRun.2.names.since {})).map Symbol.base = ["__tmp_6", "__tmp_3"] ∧
      ((sampleRun.1.flatMap Node.shadows ++ temps (sampleRun.2.names.since {})).map
        Symbol.name).Nodup := by
  refine ⟨Host.keepsNames_nesting, by decide +kernel, by decide +kernel, ?_⟩
  obtain ⟨_, distinct, _⟩ := @generated_names_distinct { host := .nesting } Host.keepsNames_nesting
    sampleWork sampleStart sampleRun.2 sampleRun.1 (Prod.eta _).symm
  exact distinct

end LispFront
