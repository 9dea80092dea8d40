import LispFront.Proofs.CoreAccessors
import LispFront.Proofs.CoupledRules
import LispFront.Proofs.Termination

/-! Where the counter of fresh names stands plays no part in what an analysis without a host does,
as long as no name of the input looks like one for an intermediate value (`analysis_renumbered`). -/

namespace LispFront

namespace Renumbering

variable {two : Renumbering} {log : List Draw} {known : Nat → Prop}

section Calls

variable {settings : Settings} {head : Form} {args others : List Form} {span : Option Span}
variable {a b : Scope} {reenter again : Form → AnalyzeM Node}

/-- Without a host its functions fail, whatever they are given. -/
theorem coupled_callHost {callable : Callable} :
    Coupled two.States (fun _ _ _ => False) log (Call.callHost .none reenter callable args span)
      (Call.callHost .none again callable others span) := fun _ _ states =>
  .error (List.prefix_refl log) states

theorem coupled_expanded?
    (same : ∀ symbol, head.symbol? = some symbol →
      Resolve.isLocal a symbol = Resolve.isLocal b symbol) :
    Coupled two.States (fun _ first second => first = none ∧ second = none) log
      (Call.expanded? settings .none reenter head args span a)
      (Call.expanded? settings .none again head others span b) := by
  unfold Call.expanded?
  split
  · exact .pure ⟨rfl, rfl⟩
  next symbol found =>
    apply bind_registry
    intro registry
    unfold Resolve.expandable?
    rw [same symbol found]
    apply bind_ofExcept
    intro found _
    cases found with
    | none => exact .pure ⟨rfl, rfl⟩
    | some definition =>
      have kinds : Coupled two.States (fun _ => Eq) log
          (Call.expansionKind? .none reenter definition args span)
          (Call.expansionKind? .none again definition others span) := by
        unfold Call.expansionKind?
        split
        · exact .pure rfl
        split
        · exact .pure rfl
        split
        · exact .pure rfl
        · exact coupled_callHost.bind fun _ impossible => impossible.elim
      refine kinds.bind fun _ same => ?_
      subst same
      split
      · exact .pure ⟨rfl, rfl⟩
      · exact coupled_callHost.bind fun _ impossible => impossible.elim

theorem coupled_analyzeCall {visit expand : Visit} (visits : two.Twinned visit)
    (same : ∀ symbol, head.symbol? = some symbol →
      Resolve.isLocal a symbol = Resolve.isLocal b symbol)
    (callee : two.Twin log known head head)
    (twins : List.Forall₂ (two.Twin log known) args others) (scopes : two.Scopes known a b) :
    Coupled two.States two.Trees log (analyzeCall settings .none visit expand head args span a)
      (analyzeCall settings .none visit expand head others span b) := by
  refine (coupled_expanded? same).bind fun grown both => ?_
  obtain ⟨left, right⟩ := both
  subst left right
  have twins := twins.imp fun _ _ twin => twin.grow grown
  refine (visits (callee.grow grown) scopes.argument).bind fun more tree => ?_
  refine (coupled_visitAll visits (twins.imp fun _ _ twin => twin.grow more)
    scopes.argument).bind fun last trees => ?_
  exact .pure (.node scopes rfl (.cons (tree.grow last) trees) (List.forall_mem_nil _))

end Calls

section Forms

variable {analyzer : Analyzer} (core : analyzer.settings.coreNamespace = two.core)
variable (unhosted : analyzer.host = .none)
variable {visit expand : Visit} (visits : two.Twinned visit) {a b : Scope} {span : Option Span}

include core visits

/-- A `let` or `loop` that lowering has made. -/
theorem coupled_binder {special : SpecialForm} {pairs others : List (Form × Form)}
    {body rest : List Form} {after : Nat → Prop}
    (kind : special = .letIn ∨ special = .loop ∧ pairs.all fun pair => Pattern.isSimple pair.1)
    (header : two.Patterns log known pairs others after)
    (bodies : List.Forall₂ (two.Twin log after) body rest) (scopes : two.Scopes known a b) :
    Coupled two.States two.Trees log
      (analyzer.analyzeForm visit expand (.binder special pairs body span) a)
      (analyzer.analyzeForm visit expand (.binder special others rest span) b) := by
  have read (special : SpecialForm) (pairs : List (Form × Form)) (body : List Form) :
      Binder.header special (.vector (Binder.flatten pairs) none [] :: body) span =
        .ok (pairs, body) := by
    simp only [Binder.header, Binder.pairs?_flatten]
  rcases kind with rfl | ⟨rfl, simple⟩
  · exact coupled_analyzeLet visits core (read _ _ _) (read _ _ _) header bodies scopes
  · exact coupled_analyzeLoop visits (read _ _ _) (read _ _ _) simple header bodies scopes

include unhosted

/-- A form of the input. -/
theorem coupled_own {form : Form} (avoids : form.Avoids two.reserved)
    (scopes : two.Scopes known a b) :
    Coupled two.States two.Trees log (analyzer.analyzeForm visit expand form a)
      (analyzer.analyzeForm visit expand form b) := by
  cases form with
  | symbol name span metadata =>
    have isOwn := (Form.avoids_symbol.mp avoids).1
    exact (coupled_analyzeSymbol scopes (scopes.own _ isOwn)).imp fun both => both.1
  | list items span metadata =>
    cases items with
    | nil => exact .pure (.node scopes rfl .nil (List.forall_mem_nil _))
    | cons head args =>
      have inside := (Form.avoids_list.mp avoids).1
      obtain ⟨headAvoids, argsAvoid⟩ := List.forall_mem_cons.mp inside
      simp only [Analyzer.analyzeForm]
      split
      · exact coupled_analyzeSpecial visits core _ argsAvoid scopes
      · rw [unhosted]
        exact coupled_analyzeCall visits
          (fun symbol found => scopes.own symbol (own_symbol headAvoids found)) (.own headAvoids)
          (twins_own argsAvoid) scopes
  | vector items span metadata =>
    have inside := (Form.avoids_vector.mp avoids).1
    refine (coupled_visitOwn visits inside scopes.argument).bind fun _ trees => ?_
    exact .pure (.node scopes rfl trees (List.forall_mem_nil _))
  | map entries span metadata =>
    have inside := (Form.avoids_map.mp avoids).1
    refine (coupled_visitEntries visits inside scopes.argument).bind fun _ trees => ?_
    exact .pure (.node scopes rfl trees (List.forall_mem_nil _))
  | _ => exact .pure (.node scopes rfl .nil (List.forall_mem_nil _))

theorem twinned_analyzeForm : two.Twinned (analyzer.analyzeForm visit expand) := by
  intro log known form other a b twin scopes
  cases twin with
  | value values =>
    cases values with
    | atom atoms =>
      cases atoms with
      | own avoids => exact coupled_own core unhosted visits avoids scopes
      | qualified =>
        exact (coupled_analyzeSymbol scopes (Scopes.isLocal_qualified rfl)).imp fun both => both.1
      | @temp index span isKnown =>
        -- The one place where the runs look up different symbols.
        obtain ⟨first, second⟩ := scopes.temps index isKnown span
        apply bind_registry
        intro registry
        change Coupled _ _ _
          (AnalyzeM.ofExcept (Resolve.shape _ _ _ (two.first.temp index span)) >>= _)
          (AnalyzeM.ofExcept (Resolve.shape _ _ _ (two.second.temp index span)) >>= _)
        rw [shape_temp first, shape_temp second]
        exact bind_ok (.pure (variables_local scopes).1)
    | accessor ordinary atoms =>
      simp only [Pattern.accessor, Analyzer.analyzeForm, Analyzer.special?, Form.symbol?,
        Option.bind_some, ordinary, unhosted]
      refine coupled_analyzeCall visits (fun symbol found => ?_) (.value (.atom .qualified))
        (atoms.imp fun _ _ atom => .value (.atom atom)) scopes
      obtain rfl := Option.some.inj found
      exact Scopes.isLocal_qualified rfl
  | around kind header avoids =>
    exact coupled_binder core visits kind header (twins_own avoids) scopes
  | nest kind header inner =>
    exact coupled_binder core visits kind header (.cons inner .nil) scopes

omit visits

theorem twinned_descend (depth : Nat) : two.Twinned (analyzer.descend expand depth) := by
  induction depth with
  | zero =>
    intro log known form other a b twin scopes
    unfold Analyzer.descend AnalyzeM.failAt AnalysisError.atForm
    rw [twin.span_eq]
    exact .throw
  | succ depth ih => exact twinned_analyzeForm core unhosted ih

/-- A form of the input in a scope that both runs share. -/
theorem coupled_analyze {form : Form} (avoids : form.Avoids two.reserved) (scope : Scope) :
    Coupled two.States two.Trees log (analyzer.analyze form scope)
      (analyzer.analyze form scope) := by
  obtain ⟨expand, analyzed⟩ := analyzer.analyze_eq_descend
  rw [analyzed]
  exact twinned_descend core unhosted (Analyzer.stepsFor form) (.own avoids) (.refl scope)

end Forms

end Renumbering

/-- A plain name that begins like the names for intermediate values. -/
def Name.looksTemporary (name : Name) : Bool :=
  name.ns.isNone && (NameSupply.tempStem ++ "_").toList.isPrefixOf name.base.toList

theorem NameSupply.temp_looksTemporary (supply : NameSupply) (index : Nat) (span : Option Span) :
    (supply.temp index span).name.looksTemporary = true := by
  have spelled : (supply.temp index span).name.base.toList =
      (tempStem ++ "_").toList ++ (toString (supply.count + index + 1)).toList :=
    String.toList_append
  rw [Name.looksTemporary, spelled]
  exact List.isPrefixOf_iff_prefix.mpr (List.prefix_append _ _)

/-- Two positions of the counter, with no names in the input that look temporary. -/
def Renumbering.between (core : String) (first second : NameSupply) : Renumbering where
  core := core
  first := first
  second := second
  reserved := Name.looksTemporary
  apart name own index := by
    constructor
    · rintro rfl
      rw [NameSupply.temp_looksTemporary] at own
      contradiction
    · rintro rfl
      rw [NameSupply.temp_looksTemporary] at own
      contradiction

/-- Without a host, and with no symbol in the form that looks like a name for an intermediate
value, the counter only shows in the numbers of names: from any two positions of it, an analysis
fails with the same error, or gives trees of the same outline. In both cases it draws equally
many names, for the same purposes, and leaves the same registry. -/
theorem analysis_renumbered {analyzer : Analyzer} (unhosted : analyzer.host = .none) {form : Form}
    (unreserved : form.Avoids Name.looksTemporary) (registry : Registry)
    (first second : NameSupply) (frames otherFrames : List Bool) :
    ∃ s t draws others, s.registry = t.registry ∧ s.names = first.after draws ∧
      t.names = second.after others ∧ List.Forall₂ Draw.Alike draws others ∧
      ((∃ error,
          Fails (analyzer.analyzeTopLevel form) { registry, names := first, frames } error s ∧
          Fails (analyzer.analyzeTopLevel form) { registry, names := second, frames := otherFrames }
            error t) ∨
        ∃ one other,
          Gives (analyzer.analyzeTopLevel form) { registry, names := first, frames } one s ∧
          Gives (analyzer.analyzeTopLevel form) { registry, names := second, frames := otherFrames }
            other t ∧
          one.SameOutline other) := by
  let two : Renumbering := .between analyzer.settings.coreNamespace first second
  have runs : Outcomes two.States two.Trees []
      (analyzer.analyzeTopLevel form { registry, names := first, frames })
      (analyzer.analyzeTopLevel form { registry, names := second, frames := otherFrames }) :=
    Renumbering.coupled_analyze rfl unhosted unreserved .top _ _ ⟨⟨rfl, [], .nil, rfl⟩, rfl⟩
  rcases left : analyzer.analyzeTopLevel form { registry, names := first, frames } with
    ⟨outcome, s⟩
  rcases right : analyzer.analyzeTopLevel form
    { registry, names := second, frames := otherFrames } with ⟨other, t⟩
  rw [left, right] at runs
  cases runs with
  | ok _ states trees =>
    obtain ⟨others, alike, moved⟩ := states.names.second
    exact ⟨s, t, _, others, states.registry, states.names.first, moved, alike,
      .inr ⟨_, _, left, right, trees.outline⟩⟩
  | error _ states =>
    obtain ⟨others, alike, moved⟩ := states.names.second
    exact ⟨s, t, _, others, states.registry, states.names.first, moved, alike,
      .inl ⟨_, left, right⟩⟩

set_option maxRecDepth 10000 in
/-- From the counter at 0 and at 41, the analysis of `(let [[a] 1] a)` takes the same course. -/
theorem analysis_renumbered_destructuring :
    Form.destructuringLet.Avoids Name.looksTemporary ∧ ∃ one other s t,
      Gives (({} : Analyzer).analyzeTopLevel .destructuringLet)
        { registry := .withAccessors, names := { count := 0 } } one s ∧
      Gives (({} : Analyzer).analyzeTopLevel .destructuringLet)
        { registry := .withAccessors, names := { count := 41 } } other t ∧
      one.SameOutline other ∧ s.registry = t.registry := by
  have avoids : Form.destructuringLet.Avoids Name.looksTemporary := rfl
  obtain ⟨_, _, succeeds⟩ : ∃ one s, Gives (({} : Analyzer).analyzeTopLevel .destructuringLet)
      { registry := .withAccessors, names := { count := 0 } } one s := ⟨_, _, rfl⟩
  refine ⟨avoids, ?_⟩
  obtain ⟨s, t, _, _, registries, _, _, _, failed | ⟨one, other, left, right, same⟩⟩ :=
    @analysis_renumbered {} rfl _ avoids .withAccessors { count := 0 } { count := 41 } [] []
  · obtain ⟨_, failed, _⟩ := failed
    have impossible := (Prod.mk.inj (failed.symm.trans succeeds)).1
    contradiction
  · exact ⟨one, other, s, t, left, right, same, registries⟩

end LispFront
