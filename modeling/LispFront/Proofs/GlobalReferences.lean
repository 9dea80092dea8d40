import LispFront.Proofs.AppendOnly
import LispFront.Proofs.Between
import LispFront.Proofs.HeadResolution
import LispFront.Proofs.Rollback
import LispFront.Proofs.Writes

/-! A variable of a definition could be seen in some state during the analysis. As a registry
without redefinition only grows, the definition is still there in the end, and unless the form
switches to another namespace, what could be seen does not depend on when. -/

namespace LispFront

namespace Registry

variable {registry : Registry}

/-- Registries without redefinition: filled with definitions, and changed by analyses that have
no host. -/
inductive Accrued : Registry → Prop where
  | fresh {registry : Registry} (fresh : registry.Fresh)
      (refuses : registry.allowRedefinition = false) : Accrued registry
  | define {registry after : Registry} {ns base : String} {metadata : Entries}
      {previous : Option Definition} (accrued : Accrued registry)
      (added : registry.addDefinition ns base metadata = .ok (previous, after)) : Accrued after
  | analyze {analyzer : Analyzer} {form : Form} {scope : Scope} {s : State}
      (unhosted : analyzer.host = .none) (accrued : Accrued s.registry) :
      Accrued (analyzer.analyze form scope s).2.registry

theorem Accrued.sound (accrued : registry.Accrued) : registry.Locked ∧ registry.Made := by
  induction accrued with
  | fresh fresh refuses => exact ⟨fresh.locked refuses, fresh.made⟩
  | define _ added ih => exact ⟨(Grows.define ih.1 added).locked, ih.2.define added⟩
  | analyze unhosted _ ih =>
    refine ⟨((tracks_grows unhosted).follows_analyze _ _ _ ih.1).locked, ?_⟩
    exact (tracks_made unhosted).follows_analyze _ _ _ ih.2

end Registry

section Resolution

variable {core home : String} {registry : Registry} {symbol : Symbol} {metadata : Entries}

/-- What a variable of a definition says about the registry it was resolved in. -/
theorem Shape.Lawful.definition {scope : Scope} (made : registry.Made)
    (lawful : (Shape.globalVar home symbol metadata).Lawful core registry scope) :
    ∃ definition, registry.definition? home symbol.base = some definition ∧
      definition.ns = home ∧ definition.metadata = metadata := by
  obtain ⟨_, _, _, definition, found, rfl, rfl⟩ := Resolve.shape_eq_globalVar_iff.mp lawful
  obtain ⟨filed, base⟩ := made.definition?_of_global? found
  rw [base] at filed
  exact ⟨definition, filed, rfl, rfl⟩

theorem Shape.Lawful.hidden {scope : Scope}
    (lawful : (Shape.globalVar home symbol metadata).Lawful core registry scope)
    {definition : Definition} (same : definition.metadata = metadata)
    (hidden : definition.isPrivate = true) : home = registry.current := by
  obtain ⟨_, _, _, resolved, found, rfl, rfl⟩ := Resolve.shape_eq_globalVar_iff.mp lawful
  refine Resolve.visible_of_global? found ?_
  have flags : resolved.isPrivate = definition.isPrivate := by
    simp only [Definition.isPrivate, Definition.flag, Definition.metadata?, same]
  exact flags.trans hidden

end Resolution

section Unhosted

variable {analyzer : Analyzer} (unhosted : analyzer.host = .none)

include unhosted

/-- Only a switch changes the current namespace. -/
theorem permits_current : Permits analyzer (· ≠ .switch) fun _ s t =>
    t.registry.current = s.registry.current where
  toSteady := .between_registries (fun first second => second.current = first.current) unhosted
    (fun _ => rfl) fun earlier later => later.trans earlier
  change allowed change := by
    cases change with
    | define added =>
      obtain ⟨_, _, rfl⟩ := Registry.addDefinition_eq_ok.mp added
      rfl
    | interface methods added =>
      obtain ⟨_, _, rfl⟩ := Registry.addDefinition_eq_ok.mp added
      rfl
    | declare | switch => contradiction
  undo _ added kept := by
    obtain ⟨_, _, rfl⟩ := Registry.addDefinition_eq_ok.mp added
    exact kept

end Unhosted

/-- In a registry without redefinition, every variable of a definition that stands in a tree has
its definition in the registry after the analysis, with the metadata that the variable carries.
As long as the form switches to no other namespace, a private one is of the current namespace. -/
theorem global_references_sound {analyzer : Analyzer} (unhosted : analyzer.host = .none)
    {form : Form} {s t : State} {root : Node} (accrued : s.registry.Accrued)
    (run : Gives (analyzer.analyzeTopLevel form) s root t) :
    ∀ trail node home name metadata, root.Leads trail node →
      node.shape = .globalVar home name metadata →
      ∃ definition, t.registry.definition? home name.base = some definition ∧
        definition.metadata = metadata ∧
        (.switch ∉ form.writes → definition.isPrivate = true →
          definition.ns = s.registry.current ∧ t.registry.current = s.registry.current) := by
  obtain ⟨locked, made⟩ := accrued.sound
  rintro trail ⟨scope, span, _⟩ home name metadata leads rfl
  have grown : root.Between analyzer.settings.coreNamespace (fun s t =>
      (s.registry.Locked → s.registry.Grows t.registry) ∧ (s.registry.Made → t.registry.Made))
      s t :=
    (Builds.sound_analyze
      (constructs_between ((tracks_grows unhosted).both (tracks_made unhosted))) run).holds
  obtain ⟨u, before, later, lawful⟩ := grown.lawful _ _ leads
  obtain ⟨definition, found, rfl, same⟩ := lawful.definition (before.2 made)
  refine ⟨definition, (later.1 (before.1 locked).locked).definition found, same, ?_⟩
  intro stays hidden
  have own : form.WritesOnly (· ≠ .switch) := fun write member other => stays (other ▸ member)
  have kept := ((constructs_between (permits_current unhosted)).of_analyze unhosted own run).holds
  obtain ⟨v, current, _, seen⟩ := kept.lawful _ _ leads
  exact ⟨(seen.hidden same hidden).trans current, kept.reaches⟩

/-- The form `(do (def hidden :private 1) hidden)`. -/
def Form.privateInBlock : Form :=
  .list [.plainSymbol "do",
    .list [.plainSymbol "def", .plainSymbol "hidden", .plainKeyword "private", .int 1] none [],
    .plainSymbol "hidden"] none []

set_option maxRecDepth 10000 in
/-- The block ends in a variable of the private definition in front of it. -/
theorem global_references_sound_private : ∃ root t trail node home name metadata definition,
    Gives (({} : Analyzer).analyzeTopLevel .privateInBlock) { registry := .ofSettings {} } root t ∧
    root.Leads trail node ∧ node.shape = .globalVar home name metadata ∧
    t.registry.definition? home name.base = some definition ∧ definition.metadata = metadata ∧
    definition.isPrivate = true ∧ definition.ns = "user" := by
  obtain ⟨root, t, trail, node, home, name, metadata, run, leads, shape, hidden⟩ :
      ∃ root t trail node home name metadata,
        Gives (({} : Analyzer).analyzeTopLevel .privateInBlock) { registry := .ofSettings {} }
          root t ∧
        root.Leads trail node ∧ node.shape = .globalVar home name metadata ∧
        ({ ns := home, base := name.base, metadata } : Definition).isPrivate = true :=
    ⟨_, _, _, _, _, _, _, rfl, .into (.tail _ (.head _)) (.here _), rfl, rfl⟩
  have accrued : (Registry.ofSettings {}).Accrued := .fresh (.ofSettings {}) rfl
  obtain ⟨definition, found, rfl, own⟩ :=
    global_references_sound rfl accrued run trail node home name metadata leads shape
  have stays : .switch ∉ Form.privateInBlock.writes := by decide
  exact ⟨root, t, trail, node, home, name, _, definition, run, leads, shape, found, rfl, hidden,
    (own stays hidden).1⟩

end LispFront
