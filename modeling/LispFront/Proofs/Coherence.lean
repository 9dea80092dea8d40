import LispFront.Proofs.Construction

/-! In a tree that comes out of an analysis every node is lawful and every part stands in the scope
that its place in the node around it asks for (`analyze_coherent`). What is said below about
recursion, scoping and names is read off this alone. -/

namespace LispFront

def Step.Fits : Step Node → Prop
  | .names symbol shadow => ∃ number, shadow = NameSupply.numbered symbol.base number
  | .visits _ scope node => node.scope = scope
  | _ => True

structure Node.Fits (core : String) (node : Node) : Prop where
  lawful : ∃ registry, node.shape.Lawful core registry node.scope
  steps : ∀ step ∈ node.shape.steps node.scope, step.Fits

/-- Every node of the tree fits. -/
def Node.Coherent (core : String) (root : Node) : Prop :=
  ∀ trail node, root.Leads trail node → node.Fits core

theorem Node.Coherent.of_parts {core : String} {node : Node} (own : node.Fits core)
    (parts : ∀ part ∈ node.shape.parts, part.2.Coherent core) : node.Coherent core := by
  rintro trail found leads
  cases leads with
  | here => exact own
  | into part rest => exact parts _ part _ _ rest

theorem Node.Coherent.fits {core : String} {node : Node} (coherent : node.Coherent core) :
    node.Fits core := coherent [] node (.here node)

theorem Node.Coherent.below {core : String} {root node : Node} {trail : List Place}
    (coherent : root.Coherent core) (leads : root.Leads trail node) : node.Coherent core :=
  fun _ _ onward => coherent _ _ (leads.append onward)

/-- The scope of a part is the one that a step gives it. -/
theorem Node.Fits.visits {core : String} {node child : Node} {place : Place}
    (fits : node.Fits core) (part : (place, child) ∈ node.shape.parts) :
    .visits place child.scope child ∈ node.shape.steps node.scope := by
  obtain ⟨inner, member⟩ := Shape.mem_parts_iff.mp part
  obtain rfl : child.scope = inner := fits.steps _ member
  exact member

theorem Runs.fits {core : String} {H : State → State → Prop} {s t : State}
    {steps : List (Step Node)} (runs : Runs H (fun _ node _ => node.Coherent core) s steps t) :
    ∀ step ∈ steps, step.Fits ∧ ∀ part, step.part? = some part → part.2.Coherent core := by
  induction runs with
  | done => simp
  | unseen _ _ ih => exact ih
  | opens _ ih => exact List.forall_mem_cons.mpr ⟨⟨trivial, by simp [Step.part?]⟩, ih⟩
  | restarts _ ih => exact List.forall_mem_cons.mpr ⟨⟨trivial, by simp [Step.part?]⟩, ih⟩
  | names _ ih => exact List.forall_mem_cons.mpr ⟨⟨⟨_, rfl⟩, by simp [Step.part?]⟩, ih⟩
  | resolves _ _ ih => exact List.forall_mem_cons.mpr ⟨⟨trivial, by simp [Step.part?]⟩, ih⟩
  | visits placed visited _ ih =>
    refine List.forall_mem_cons.mpr ⟨⟨placed, ?_⟩, ih⟩
    rintro _ ⟨⟩
    exact visited

theorem tracks_any (analyzer : Analyzer) : Tracks analyzer fun _ _ _ => True where
  refl := trivial
  trans _ _ := trivial
  inner _ := trivial
  names _ := trivial
  opens _ := trivial
  restarts := trivial
  host _ := trivial
  change _ _ := trivial
  undo _ _ _ := trivial

theorem builds_coherent (analyzer : Analyzer) :
    Builds analyzer (fun _ _ _ => True)
      (fun _ node _ => node.Coherent analyzer.settings.coreNamespace) where
  tracks := tracks_any analyzer
  node {scope span shape s t} lawful runs := by
    have fits := runs.fits
    have own : Node.Fits analyzer.settings.coreNamespace (.mk scope span shape) :=
      ⟨⟨s.registry, lawful⟩, fun step member => (fits step member).1⟩
    refine .of_parts own ?_
    rintro ⟨place, child⟩ part
    obtain ⟨inner, member⟩ := Shape.mem_parts_iff.mp part
    exact (fits _ member).2 _ rfl
  after _ coherent := coherent

theorem analyze_coherent {analyzer : Analyzer} {form : Form} {scope : Scope} {s t : State}
    {root : Node} (run : Gives (analyzer.analyze form scope) s root t) :
    root.scope = scope ∧ root.Coherent analyzer.settings.coreNamespace :=
  have built := (builds_coherent analyzer).sound_analyze run
  ⟨built.placed, built.holds⟩

end LispFront
