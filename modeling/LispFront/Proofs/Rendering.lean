import LispFront.Proofs.Capture

/-! Bindings of `let` and `loop` are spelled by a numbered name, all other locals as they are
written. Numbered names of different locals differ. A written name can be spelled like the numbered
name of another local, though; this is the only way in which two locals of one scope collide
(`render_injective_iff`). -/

namespace LispFront

/-- The spelling of a local. -/
def Scope.render (scope : Scope) (symbol : Symbol) : Symbol :=
  (scope.shadow? symbol).getD symbol

/-- The scopes that a node records: its own and those of its bindings, handlers and
methods. -/
def Shape.environments {ν : Type} (scope : Scope) : Shape ν → List Scope
  | .letIn bindings _ | .loop _ bindings _ => scope :: bindings.map Binding.scope
  | .guarded _ handlers _ => scope :: handlers.map Handler.scope
  | .defStruct _ _ _ interfaces =>
    scope :: interfaces.flatMap fun implementation =>
      implementation.methods.map StructMethod.scope
  | _ => [scope]

section Top

variable {scope : Scope} {names : List BoundName} {x y : Symbol}
variable (known : Scope.top.Extends names scope) (valid : ∀ bound ∈ names, bound.Valid)

include known valid

theorem Scope.Extends.shadow_numbered {shadow : Symbol} (shadowed : scope.shadow? x = some shadow) :
    ∃ number, shadow = NameSupply.numbered x.base number := by
  rw [known.shadow?_eq, Option.bind_eq_some_iff] at shadowed
  obtain ⟨bound, found, generated⟩ := shadowed
  obtain ⟨listed, same⟩ := BoundName.find?_some found
  obtain ⟨number, rfl⟩ := (valid bound listed).numbered shadow generated
  exact ⟨number, by rw [Symbol.base, Symbol.base, same]⟩

/-- Two locals that go under numbered names and are spelled alike are the same. -/
theorem Scope.Extends.eq_of_numbered {first second : Symbol} (localX : x ∈ scope.locals)
    (localY : y ∈ scope.locals) (shadowedX : scope.shadow? x = some first)
    (shadowedY : scope.shadow? y = some second) (alike : first.name = second.name) :
    x.name = y.name := by
  obtain ⟨n, rfl⟩ := known.shadow_numbered valid shadowedX
  obtain ⟨m, rfl⟩ := known.shadow_numbered valid shadowedY
  exact Symbol.name_eq_of_plain (known.plain_of_mem valid localX)
    (known.plain_of_mem valid localY) (NameSupply.numbered_inj alike).1

/-- Locals of different names are spelled differently just when no local under its own
spelling looks like the generated name of a local. -/
theorem Scope.Extends.render_injective_iff :
    (∀ x ∈ scope.locals, ∀ y ∈ scope.locals, x.name ≠ y.name →
      (scope.render x).name ≠ (scope.render y).name) ↔
    (∀ x ∈ scope.locals, ∀ y ∈ scope.locals, scope.shadow? y = none →
      (scope.shadow? x).map Symbol.name ≠ some y.name) := by
  constructor
  · intro apart x localX y localY written alike
    obtain ⟨shadow, shadowed, spelled⟩ := Option.map_eq_some_iff.mp alike
    refine apart x localX y localY ?_ ?_
    · intro same
      rw [known.shadow?_eq, same, ← known.shadow?_eq, written] at shadowed
      contradiction
    · rw [Scope.render, Scope.render, shadowed, written]
      exact spelled
  · intro unlike x localX y localY different alike
    rw [Scope.render, Scope.render] at alike
    cases shadowX : scope.shadow? x <;> cases shadowY : scope.shadow? y <;>
      rw [shadowX, shadowY] at alike
    case none.none => exact different alike
    case none.some second =>
      refine unlike y localY x localX shadowX ?_
      rw [shadowY, Option.map_some]
      exact congrArg some alike.symm
    case some.none first =>
      refine unlike x localX y localY shadowY ?_
      rw [shadowX, Option.map_some]
      exact congrArg some alike
    case some.some first second =>
      exact different (known.eq_of_numbered valid localX localY shadowX shadowY alike)

end Top

theorem Binding.init_mem_parts {earlier : List BoundName} {bindings : List (Binding Node)}
    {binding : Binding Node} (member : binding ∈ bindings) :
    ∃ place, (place, binding.init) ∈ Binding.parts earlier bindings := by
  have listed : binding.init ∈ (Binding.parts earlier bindings).map Prod.snd := by
    rw [Binding.map_parts]
    exact List.mem_map_of_mem member
  obtain ⟨⟨place, _⟩, part, rfl⟩ := List.mem_map.mp listed
  exact ⟨place, part⟩

/-- Besides its own scope a node records those of first values, that of its handlers,
and those of its methods. -/
theorem Shape.environment_cases {core : String} {registry : Registry} {outer scope : Scope}
    {shape : Shape Node} (lawful : shape.Lawful core registry outer)
    (recorded : scope ∈ shape.environments outer) :
    scope = outer ∨ scope = outer.returning ∨
    (∃ place child, (place, child) ∈ shape.parts ∧ scope = child.scope) ∨
    ∃ lambda, (scope, lambda) ∈ shape.functions outer := by
  cases shape with
  | letIn bindings body =>
    refine (List.mem_cons.mp recorded).imp_right fun listed => .inr (.inl ?_)
    obtain ⟨binding, member, rfl⟩ := List.mem_map.mp listed
    obtain ⟨place, part⟩ := Binding.init_mem_parts member
    exact ⟨place, _, List.mem_append_left _ part, (lawful binding member).scope⟩
  | loop frame bindings body =>
    refine (List.mem_cons.mp recorded).imp_right fun listed => .inr (.inl ?_)
    obtain ⟨binding, member, rfl⟩ := List.mem_map.mp listed
    obtain ⟨place, part⟩ := Binding.init_mem_parts member
    exact ⟨place, _, List.mem_append_left _ part, (lawful.1 binding member).scope⟩
  | guarded body handlers cleanup =>
    refine (List.mem_cons.mp recorded).imp_right fun listed => .inl ?_
    obtain ⟨handler, member, rfl⟩ := List.mem_map.mp listed
    exact (lawful handler member).scope
  | defStruct home name fields interfaces =>
    refine (List.mem_cons.mp recorded).imp_right fun listed => .inr (.inr ?_)
    obtain ⟨implementation, member, given⟩ := List.mem_flatMap.mp listed
    obtain ⟨method, written, rfl⟩ := List.mem_map.mp given
    exact ⟨method.lambda, List.mem_flatMap.mpr
      ⟨implementation, member, List.mem_map.mpr ⟨method, written, rfl⟩⟩⟩
  | _ => exact .inl (List.mem_singleton.mp recorded)

/-- Every scope that the tree records has its names from binders around it. -/
theorem analyzeTopLevel_environment {analyzer : Analyzer} {form : Form} {s t : State}
    {root node : Node} {trail : List Place} {scope : Scope}
    (run : Gives (analyzer.analyzeTopLevel form) s root t) (leads : root.Leads trail node)
    (recorded : scope ∈ node.shape.environments node.scope) :
    ∃ names, Scope.top.Extends names scope ∧ ∀ bound ∈ names, bound.Valid := by
  obtain ⟨seen, coherent⟩ := analyzeTopLevel_sees run leads
  obtain ⟨registry, lawful⟩ := coherent.fits.lawful
  rcases Shape.environment_cases lawful recorded with
    rfl | rfl | ⟨place, child, part, rfl⟩ | ⟨lambda, listed⟩
  · exact ⟨_, seen.names, seen.valid⟩
  · exact ⟨_, seen.names.trans node.scope.returning_names, seen.valid⟩
  · have inside := (analyzeTopLevel_sees run (leads.append (.into part (.here child)))).1
    exact ⟨_, inside.names, inside.valid⟩
  · obtain ⟨names, placed⟩ := analyzeTopLevel_placed run leads listed
    exact ⟨names, placed.around, placed.valid⟩

/-- In each scope that the tree records, different locals are spelled differently just
when no local under its own spelling looks like the generated name of another. -/
theorem renders_apart_iff {analyzer : Analyzer} {form : Form} {s t : State} {root : Node}
    (run : Gives (analyzer.analyzeTopLevel form) s root t) :
    ∀ trail node scope, root.Leads trail node →
      scope ∈ node.shape.environments node.scope →
      ((∀ x ∈ scope.locals, ∀ y ∈ scope.locals, x.name ≠ y.name →
        (scope.render x).name ≠ (scope.render y).name) ↔
      (∀ x ∈ scope.locals, ∀ y ∈ scope.locals, scope.shadow? y = none →
        (scope.shadow? x).map Symbol.name ≠ some y.name)) := by
  intro trail node scope leads recorded
  obtain ⟨names, known, valid⟩ := analyzeTopLevel_environment run leads recorded
  exact known.render_injective_iff valid

/-- The form `(let [a 1] (fn [param] a))`. -/
def Form.fnInLet (param : String) : Form :=
  .list [.plainSymbol "let", .vector [.plainSymbol "a", .int 1] none [],
    .list [.plainSymbol "fn", .vector [.plainSymbol param] none [], .plainSymbol "a"] none []]
    none []

set_option maxRecDepth 10000 in
/-- With the parameter `b` all is well. -/
theorem renders_apart_iff_fnInLet : ∃ root t trail node,
    Gives (({} : Analyzer).analyzeTopLevel (.fnInLet "b")) { registry := .ofSettings {} } root t ∧
    root.Leads trail node ∧ node.scope.locals.map Symbol.name = [.plain "a", .plain "b"] ∧
    ∀ x ∈ node.scope.locals, ∀ y ∈ node.scope.locals, x.name ≠ y.name →
      (node.scope.render x).name ≠ (node.scope.render y).name := by
  obtain ⟨root, t, trail, node, run, leads, locals, recorded, unlike⟩ : ∃ root t trail node,
      Gives (({} : Analyzer).analyzeTopLevel (.fnInLet "b")) { registry := .ofSettings {} } root t ∧
      root.Leads trail node ∧ node.scope.locals.map Symbol.name = [.plain "a", .plain "b"] ∧
      node.scope ∈ node.shape.environments node.scope ∧
      ∀ x ∈ node.scope.locals, ∀ y ∈ node.scope.locals, node.scope.shadow? y = none →
        (node.scope.shadow? x).map Symbol.name ≠ some y.name :=
    ⟨_, _, _, _, rfl, .into (.tail _ (.head _)) (.into (.head _) (.into (.head _) (.here _))),
      rfl, .head _, by decide⟩
  exact ⟨root, t, trail, node, run, leads, locals,
    (renders_apart_iff run trail node node.scope leads recorded).mpr unlike⟩

set_option maxRecDepth 10000 in
/-- With the parameter `a_1` the two locals are both spelled `a_1`. -/
theorem locals_collide : ∃ root t trail node x y,
    Gives (({} : Analyzer).analyzeTopLevel (.fnInLet "a_1")) { registry := .ofSettings {} } root t ∧
    root.Leads trail node ∧ node.scope ∈ node.shape.environments node.scope ∧
    x ∈ node.scope.locals ∧ y ∈ node.scope.locals ∧ x.name ≠ y.name ∧
    (node.scope.render x).name = (node.scope.render y).name :=
  ⟨_, _, _, _, _, _, rfl, .into (.tail _ (.head _)) (.into (.head _) (.into (.head _) (.here _))),
    .head _, .head _, .tail _ (.head _), by decide, rfl⟩

end LispFront
