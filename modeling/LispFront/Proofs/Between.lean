import LispFront.Proofs.Construction

/-! Every node of a tree is lawful in some state on the way from the state before the analysis to
the one after it, and every interface that a struct names is declared in such a state
(`constructs_between`). The way is given by a relation that the moves of an analysis keep. -/

namespace LispFront

/-- The interface of this name has methods. -/
def Registry.Declares (registry : Registry) (interface : String) : Prop :=
  ∃ ns base methods, registry.interface? ns base = some methods ∧
    interface = platformName ns base

/-- The tree was built on the way from one state to the other. -/
structure Node.Between (core : String) (r : State → State → Prop) (s : State) (root : Node)
    (t : State) : Prop where
  reaches : r s t
  lawful : ∀ trail node, root.Leads trail node →
    ∃ u, r s u ∧ r u t ∧ node.shape.Lawful core u.registry node.scope
  declares : ∀ trail node interface, root.Leads trail node →
    .resolves interface ∈ node.shape.steps node.scope →
    ∃ u, r s u ∧ r u t ∧ u.registry.Declares interface

def Step.Between (core : String) (r : State → State → Prop) (s t : State) : Step Node → Prop
  | .visits _ _ node => node.Between core r s t
  | .resolves interface => ∃ u, r s u ∧ r u t ∧ u.registry.Declares interface
  | _ => True

section Relation

variable {analyzer : Analyzer} {core : String} {r : State → State → Prop} {s t u : State}
variable (steady : Steady analyzer fun _ => r)

include steady

theorem Steady.same : r s s := @Steady.refl analyzer _ steady none s

theorem Steady.composes (first : r s t) (second : r t u) : r s u :=
  @Steady.trans analyzer _ steady none _ _ _ first second

theorem Steady.opened : r s s.opened :=
  @Steady.opens analyzer _ steady none [] s _ steady.same

theorem Steady.drawn (draws : List Draw) : r s { s with names := s.names.after draws } :=
  @Steady.names analyzer _ steady none s draws

/-- A state on the way from `t` to `u` is on any longer way as well. -/
theorem Steady.widens {p : State → Prop} {first last : State} (before : r first s)
    (after : r t last) (between : ∃ u, r s u ∧ r u t ∧ p u) :
    ∃ u, r first u ∧ r u last ∧ p u := by
  obtain ⟨u, earlier, later, holds⟩ := between
  exact ⟨u, steady.composes before earlier, steady.composes later after, holds⟩

theorem Node.Between.widen {node : Node} {first last : State} (before : r first s)
    (after : r t last) (between : node.Between core r s t) : node.Between core r first last where
  reaches := steady.composes before (steady.composes between.reaches after)
  lawful trail inner leads := steady.widens before after (between.lawful trail inner leads)
  declares trail inner interface leads resolved :=
    steady.widens before after (between.declares trail inner interface leads resolved)

theorem Step.Between.widen {step : Step Node} {first last : State} (before : r first s)
    (after : r t last) (between : step.Between core r s t) : step.Between core r first last := by
  cases step with
  | visits place scope node => exact Node.Between.widen steady before after between
  | resolves interface => exact steady.widens before after between
  | _ => trivial

/-- What the steps visit and look up lies between the states around all of them. -/
theorem Runs.between {steps : List (Step Node)} (runs : Runs r (Node.Between core r) s steps t) :
    r s t ∧ ∀ step ∈ steps, step.Between core r s t := by
  -- A step takes the state from `s` to `t`, and the others go on from there.
  have extend {s t u : State} {first : Step Node} {steps : List (Step Node)} (changed : r s t)
      (own : first.Between core r s t)
      (later : r t u ∧ ∀ step ∈ steps, step.Between core r t u) :
      r s u ∧ ∀ step ∈ first :: steps, step.Between core r s u := by
    refine ⟨steady.composes changed later.1, List.forall_mem_cons.mpr ⟨?_, ?_⟩⟩
    · exact own.widen steady steady.same later.1
    · exact fun step member => (later.2 step member).widen steady changed steady.same
  induction runs with
  | done => exact ⟨steady.same, List.forall_mem_nil _⟩
  | unseen changed _ ih =>
    refine ⟨steady.composes changed ih.1, fun step member => ?_⟩
    exact (ih.2 step member).widen steady changed steady.same
  | opens _ ih => exact extend steady.opened trivial ih
  | restarts _ ih => exact extend steady.restarts trivial ih
  | @names _ _ symbol _ _ ih => exact extend (steady.drawn [.shadow symbol.base]) trivial ih
  | @resolves s _ ns base methods _ declared _ ih =>
    have here : s.registry.Declares (platformName ns base) := ⟨ns, base, methods, declared, rfl⟩
    exact extend steady.same ⟨s, steady.same, steady.same, here⟩ ih
  | visits placed visited _ ih => exact extend visited.reaches visited ih

end Relation

theorem constructs_between {analyzer : Analyzer} {allows : Write → Prop}
    {r : State → State → Prop} (permits : Permits analyzer allows fun _ => r) :
    Constructs analyzer allows (fun _ => r)
      (Node.Between analyzer.settings.coreNamespace r) where
  tracks := permits
  node {scope span shape s t} lawful runs := by
    have steady := permits.toSteady
    obtain ⟨reaches, steps⟩ := runs.between steady
    have below {place : Place} {child : Node} (part : (place, child) ∈ shape.parts) :
        child.Between analyzer.settings.coreNamespace r s t := by
      obtain ⟨inner, member⟩ := Shape.mem_parts_iff.mp part
      exact steps _ member
    refine ⟨reaches, fun trail node leads => ?_, fun trail node interface leads resolved => ?_⟩
    · cases leads with
      | here => exact ⟨s, steady.same, reaches, lawful⟩
      | into part rest => exact (below part).lawful _ node rest
    · cases leads with
      | here => exact steps _ resolved
      | into part rest => exact (below part).declares _ node interface rest resolved
  after changed between := between.widen permits.toSteady changed permits.toSteady.same

end LispFront
