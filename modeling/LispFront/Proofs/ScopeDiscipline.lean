import LispFront.Proofs.LexicalScope

/-! On the way from a node to its parts a scope only gets narrower (`Shape.narrows`): local names
stay local, a definition that may not stand somewhere may not stand further inside, and no `recur`
can be restarted from where an enclosing expression needs the value. What is inside a definition
allows none, so definitions do not nest. -/

namespace LispFront

namespace Scope

/-- Where an enclosing expression needs the value, no `recur` may stand. -/
def Settled (scope : Scope) : Prop := scope.context = .expression → scope.frame = none

structure Narrows (outer inner : Scope) : Prop where
  defAllowed : inner.defAllowed = true → outer.defAllowed = true
  settled : outer.Settled → inner.Settled

namespace Narrows

variable {outer middle inner : Scope}

theorem refl (scope : Scope) : scope.Narrows scope := ⟨id, id⟩

theorem trans (first : outer.Narrows middle) (second : middle.Narrows inner) :
    outer.Narrows inner :=
  ⟨first.defAllowed ∘ second.defAllowed, second.settled ∘ first.settled⟩

/-- Names and labels have no part in it. -/
theorem of_same (context : inner.context = outer.context) (frame : inner.frame = outer.frame)
    (defAllowed : inner.defAllowed = outer.defAllowed) : outer.Narrows inner where
  defAllowed allowed := defAllowed ▸ allowed
  settled settled needed := frame.trans (settled (context.symm.trans needed))

theorem of_blocked (frame : inner.frame = none) (defAllowed : inner.defAllowed = outer.defAllowed) :
    outer.Narrows inner where
  defAllowed allowed := defAllowed ▸ allowed
  settled _ _ := frame

theorem of_unneeded (context : inner.context ≠ .expression)
    (defAllowed : inner.defAllowed = outer.defAllowed) : outer.Narrows inner where
  defAllowed allowed := defAllowed ▸ allowed
  settled _ needed := absurd needed context

end Narrows

theorem returning_context (scope : Scope) : scope.returning.context ≠ .expression := by
  unfold Scope.returning
  split
  · exact nofun
  next other => exact other

theorem returning_defAllowed (scope : Scope) : scope.returning.defAllowed = scope.defAllowed := by
  unfold Scope.returning
  split <;> rfl

theorem narrows_returning (scope : Scope) : scope.Narrows scope.returning :=
  .of_unneeded scope.returning_context scope.returning_defAllowed

variable (scope : Scope) (bindings : List (Binding Node))

theorem foldl_extend_context : (bindings.foldl Scope.extend scope).context = scope.context := by
  induction bindings generalizing scope with
  | nil => rfl
  | cons binding rest ih => exact ih (scope.extend binding)

theorem foldl_extend_defAllowed :
    (bindings.foldl Scope.extend scope).defAllowed = scope.defAllowed := by
  induction bindings generalizing scope with
  | nil => rfl
  | cons binding rest ih => exact ih (scope.extend binding)

end Scope

section Step

variable {scope inner : Scope} {place : Place} {child : Node}

theorem Binding.narrows {earlier : List BoundName} {bindings : List (Binding Node)}
    (member : .visits place inner child ∈ Binding.steps scope earlier bindings) :
    scope.Narrows inner := by
  induction bindings generalizing scope earlier with
  | nil => contradiction
  | cons binding rest ih =>
    simp only [Binding.steps, List.mem_cons, reduceCtorEq, false_or, Step.visits.injEq] at member
    rcases member with ⟨_, rfl, _⟩ | later
    · exact .of_blocked rfl rfl
    · have step : scope.Narrows (scope.extend binding) := .of_same rfl rfl rfl
      exact step.trans (ih later)

theorem Lambda.narrows {fields : List Symbol} {lambda : Lambda Node}
    (member : .visits place inner child ∈ lambda.steps scope fields) : scope.Narrows inner := by
  simp only [Lambda.steps, List.mem_cons, List.not_mem_nil, or_false, reduceCtorEq, false_or,
    Step.visits.injEq] at member
  obtain ⟨_, rfl, _⟩ := member
  refine .of_unneeded (fun needed => ?_) rfl
  contradiction

theorem Handler.narrows {handler : Handler Node}
    (member : .visits place inner child ∈ handler.steps scope) : scope.Narrows inner := by
  simp only [Handler.steps, List.mem_cons, List.not_mem_nil, or_false, Step.visits.injEq] at member
  rcases member with ⟨_, rfl, _⟩ | ⟨_, rfl, _⟩
  · exact .of_blocked rfl rfl
  · exact .of_blocked rfl rfl

/-- One step from a node to a part, whatever the node is. -/
theorem Shape.narrows {shape : Shape Node}
    (member : .visits place inner child ∈ shape.steps scope) : scope.Narrows inner := by
  cases shape with
  | branch test yes no =>
    simp only [Shape.steps, List.mem_cons, List.not_mem_nil, or_false, Step.visits.injEq] at member
    rcases member with ⟨_, rfl, _⟩ | ⟨_, rfl, _⟩ | ⟨_, rfl, _⟩
    · exact .of_blocked rfl rfl
    · exact .refl _
    · exact .refl _
  | block stmts ret =>
    simp only [Shape.steps, List.mem_append, List.mem_map, List.mem_singleton,
      Step.visits.injEq] at member
    rcases member with ⟨_, _, _, rfl, _⟩ | ⟨_, rfl, _⟩
    · exact .of_blocked rfl rfl
    · exact .refl _
  | letIn bindings body =>
    simp only [Shape.steps, List.mem_append, List.mem_singleton, Step.visits.injEq] at member
    refine scope.narrows_returning.trans ?_
    rcases member with early | ⟨_, rfl, _⟩
    · exact Binding.narrows early
    · exact .of_same (Scope.foldl_extend_context _ _) (Scope.foldl_extend_frame _ _)
        (Scope.foldl_extend_defAllowed _ _)
  | loop frame bindings body =>
    simp only [Shape.steps, List.cons_append, List.mem_cons, List.mem_append, List.not_mem_nil,
      or_false, reduceCtorEq, false_or, Step.visits.injEq] at member
    refine scope.narrows_returning.trans ?_
    rcases member with early | ⟨_, rfl, _⟩
    · exact Binding.narrows early
    · -- The body has a frame; its value is the result of the loop or dropped.
      refine .of_unneeded ?_ (Scope.foldl_extend_defAllowed _ _)
      intro needed
      exact scope.returning_context ((Scope.foldl_extend_context _ _).symm.trans needed)
  | fn lambda => exact Lambda.narrows member
  | recur frame args =>
    simp only [Shape.steps, List.mem_cons, List.mem_map, reduceCtorEq, false_or,
      Step.visits.injEq] at member
    obtain ⟨_, _, _, rfl, _⟩ := member
    exact .of_blocked rfl rfl
  | foreach value key coll body =>
    simp only [Shape.steps, List.mem_cons, List.not_mem_nil, or_false, Step.visits.injEq] at member
    rcases member with ⟨_, rfl, _⟩ | ⟨_, rfl, _⟩
    · exact .of_blocked rfl rfl
    · exact .of_blocked rfl rfl
  | guarded body handlers cleanup =>
    simp only [Shape.steps, List.cons_append, List.mem_cons, List.mem_append, List.mem_flatMap,
      List.mem_map, Step.visits.injEq] at member
    rcases member with ⟨_, rfl, _⟩ | ⟨handler, _, visited⟩ | ⟨_, _, _, rfl, _⟩
    · exact .of_blocked rfl scope.returning_defAllowed
    · exact scope.narrows_returning.trans (Handler.narrows visited)
    · exact .of_blocked rfl rfl
  | define home name metadata metadataNode init =>
    simp only [Shape.steps, List.mem_map, Step.visits.injEq] at member
    obtain ⟨_, _, _, rfl, _⟩ := member
    refine ⟨fun allowed => ?_, fun _ _ => rfl⟩
    contradiction
  | defStruct home name fields interfaces =>
    simp only [Shape.steps, List.mem_flatMap, List.mem_cons, reduceCtorEq, false_or] at member
    obtain ⟨_, _, _, _, visited⟩ := member
    have around : scope.Narrows (scope.ofStruct home name fields) := .of_same rfl rfl rfl
    exact around.trans (Lambda.narrows visited)
  | _ =>
    simp only [Shape.steps, List.mem_map, Step.visits.injEq] at member
    obtain ⟨_, _, _, rfl, _⟩ := member
    exact .of_blocked rfl rfl

end Step

def Shape.isDefine {ν : Type} : Shape ν → Bool
  | .define .. => true
  | _ => false

theorem Shape.inside_define {scope inner : Scope} {shape : Shape Node} {place : Place}
    {child : Node} (define : shape.isDefine = true)
    (member : .visits place inner child ∈ shape.steps scope) : inner.defAllowed = false := by
  cases shape with
  | define home name metadata metadataNode init =>
    simp only [Shape.steps, List.mem_map, Step.visits.injEq] at member
    obtain ⟨_, _, _, rfl, _⟩ := member
    rfl
  | _ => contradiction

theorem Node.Fits.define {core : String} {node : Node} (fits : node.Fits core)
    (define : node.shape.isDefine = true) : node.scope.defAllowed = true := by
  obtain ⟨registry, lawful⟩ := fits.lawful
  revert lawful define
  cases node.shape with
  | define => exact fun _ allowed => allowed
  | _ => exact nofun

namespace Node.Coherent

variable {core : String} {root node : Node} {trail : List Place}

/-- The steps of a way add up. -/
theorem narrows (coherent : root.Coherent core) (leads : root.Leads trail node) :
    root.scope.Narrows node.scope := by
  induction leads with
  | here node => exact .refl node.scope
  | into part _ ih =>
    have step := Shape.narrows (coherent.fits.visits part)
    exact step.trans (ih (coherent.below (.into part (.here _))))

theorem no_nested_define {place : Place} (coherent : root.Coherent core)
    (define : root.shape.isDefine = true) (leads : root.Leads (place :: trail) node) :
    node.shape.isDefine = false := by
  cases leads with
  | into part rest =>
    have refused := Shape.inside_define define (coherent.fits.visits part)
    have below := coherent.below (.into part (.here _))
    refine Bool.eq_false_iff.mpr fun other => ?_
    have allowed := (below.narrows rest).defAllowed ((below.below rest).fits.define other)
    exact absurd allowed (Bool.eq_false_iff.mp refused)

end Node.Coherent

theorem Scope.mem_names_iff {scope : Scope} {symbol : Symbol} :
    symbol.name ∈ scope.locals.map Symbol.name ↔
      Ordered.hasMember Symbol.cmp symbol scope.locals = true := by
  simp only [Ordered.hasMember, List.any_eq_true, List.mem_map, Symbol.cmp_eq_iff,
    decide_eq_true_eq]
  exact exists_congr fun other => and_congr_right fun _ => eq_comm

theorem Scope.Extends.names_subset {outer inner : Scope} {names : List BoundName}
    (known : outer.Extends names inner) :
    outer.locals.map Symbol.name ⊆ inner.locals.map Symbol.name := by
  intro name member
  obtain ⟨symbol, _, rfl⟩ := List.mem_map.mp member
  rw [Scope.mem_names_iff, known.locals, Scope.mem_names_iff.mp member, Bool.or_true]

/-- In the tree of a top-level form a child knows all names that its parent knows and
allows no definition where the parent allows none, no `recur` can be restarted where
the value is needed, and a definition has none below it. -/
theorem scope_discipline {analyzer : Analyzer} {form : Form} {s t : State} {root : Node}
    (run : Gives (analyzer.analyzeTopLevel form) s root t) :
    ∀ trail node, root.Leads trail node →
      (∀ child ∈ node.shape.children,
        node.scope.locals.map Symbol.name ⊆ child.scope.locals.map Symbol.name ∧
        (node.scope.defAllowed = false → child.scope.defAllowed = false)) ∧
      (node.scope.context = .expression → node.scope.frame = none) ∧
      (node.shape.isDefine = true → ∀ place more inner, node.Leads (place :: more) inner →
        inner.shape.isDefine = false) := by
  intro trail node leads
  obtain ⟨placed, coherent⟩ := analyze_coherent run
  have here := coherent.below leads
  refine ⟨fun child member => ?_, ?_, fun define place more inner => here.no_nested_define define⟩
  · obtain ⟨⟨place, child⟩, part, rfl⟩ :=
      List.mem_map.mp (node.shape.children_sublist_parts.subset member)
    have onward : node.Leads [place] child := .into part (.here child)
    refine ⟨(here.sees onward).names.names_subset, fun refused => ?_⟩
    exact Bool.eq_false_iff.mpr fun allowed =>
      absurd ((here.narrows onward).defAllowed allowed) (Bool.eq_false_iff.mp refused)
  · exact (coherent.narrows leads).settled (placed ▸ fun _ => rfl)

/-- The form `(do (def f (fn [x] (let [y (do x)] (recur y)))) 1)`. -/
def Form.definitionInBlock : Form :=
  .list [.plainSymbol "do",
    .list [.plainSymbol "def", .plainSymbol "f",
      .list [.plainSymbol "fn", .vector [.plainSymbol "x"] none [],
        .list [.plainSymbol "let",
          .vector [.plainSymbol "y", .list [.plainSymbol "do", .plainSymbol "x"] none []] none [],
          .list [.plainSymbol "recur", .plainSymbol "y"] none []] none []] none []] none [],
    .int 1] none []

set_option maxRecDepth 10000 in
/-- The definition stands in a block; its function restarts, and its `let` binds a name. -/
theorem scope_discipline_block : ∃ root t trail node,
    Gives (({} : Analyzer).analyzeTopLevel .definitionInBlock) { registry := .ofSettings {} }
      root t ∧
    root.Leads trail node ∧ node.shape.isDefine = true ∧ node.shape.children.length = 2 ∧
    (∀ child ∈ node.shape.children,
      node.scope.locals.map Symbol.name ⊆ child.scope.locals.map Symbol.name ∧
      (node.scope.defAllowed = false → child.scope.defAllowed = false)) ∧
    (∀ place more inner, node.Leads (place :: more) inner → inner.shape.isDefine = false) := by
  obtain ⟨root, t, trail, node, run, leads, define, count⟩ : ∃ root t trail node,
      Gives (({} : Analyzer).analyzeTopLevel .definitionInBlock) { registry := .ofSettings {} }
        root t ∧
      root.Leads trail node ∧ node.shape.isDefine = true ∧ node.shape.children.length = 2 :=
    ⟨_, _, _, _, rfl, .into (.head _) (.here _), rfl, rfl⟩
  obtain ⟨children, _, below⟩ := scope_discipline run trail node leads
  exact ⟨root, t, trail, node, run, leads, define, count, children, below define⟩

end LispFront
