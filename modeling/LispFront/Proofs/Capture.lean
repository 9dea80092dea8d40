import LispFront.Proofs.LexicalScope

/-! A function lists the enclosing locals that its body may use, under the names they have outside.
The body looks names up in a scope of its own. Both come to the same (`Lambda.Placed.captures`),
since the two scopes differ only in what is bound inside. -/

namespace LispFront

/-- The functions that a node is or contains as methods, each with its own scope. -/
def Shape.functions {ν : Type} (scope : Scope) : Shape ν → List (Scope × Lambda ν)
  | .fn lambda => [(scope, lambda)]
  | .defStruct _ _ _ interfaces =>
    interfaces.flatMap fun implementation =>
      implementation.methods.map fun method => (method.scope, method.lambda)
  | _ => []

/-- The body of a function is a part of the node. Only fields come between the scope of
the node and that of the function. -/
theorem Shape.function_cases {core : String} {registry : Registry} {scope own : Scope}
    {shape : Shape Node} {lambda : Lambda Node} (lawful : shape.Lawful core registry scope)
    (listed : (own, lambda) ∈ shape.functions scope) :
    lambda.Lawful own ∧ ∃ fields : List Symbol, (∀ field ∈ fields, field.Plain) ∧
      scope.Extends (fields.map .written) own ∧
      .visits (lambda.part fields).1 (lambda.bodyScope own) lambda.body ∈ shape.steps scope := by
  cases shape with
  | fn other =>
    obtain ⟨rfl, rfl⟩ := Prod.mk.inj (List.mem_singleton.mp listed)
    exact ⟨lawful, [], nofun, .refl own, List.mem_cons_of_mem _ List.mem_cons_self⟩
  | defStruct home name fields interfaces =>
    obtain ⟨plain, methods⟩ := lawful
    obtain ⟨implementation, member, written⟩ := List.mem_flatMap.mp listed
    obtain ⟨method, given, same⟩ := List.mem_map.mp written
    obtain ⟨rfl, rfl⟩ := Prod.mk.inj same
    obtain ⟨placed, lambdaLawful⟩ := methods implementation member method given
    refine ⟨lambdaLawful, fields, plain, ?_, ?_⟩
    · rw [placed]
      exact (Scope.Extends.introduce scope fields).same_names rfl rfl
    · rw [placed]
      refine List.mem_flatMap.mpr ⟨implementation, member, List.mem_cons_of_mem _ ?_⟩
      exact List.mem_flatMap.mpr ⟨method, given, List.mem_cons_of_mem _ List.mem_cons_self⟩
  | _ => contradiction

/-- Where a function stands: what is bound around it and what its body sees. -/
structure Lambda.Placed (core : String) (scope : Scope) (names : List BoundName)
    (lambda : Lambda Node) : Prop where
  lawful : lambda.Lawful scope
  around : Scope.top.Extends names scope
  valid : ∀ bound ∈ names, bound.Valid
  body : scope.Extends (lambda.params.map .written) lambda.body.scope
  coherent : lambda.body.Coherent core

theorem analyzeTopLevel_placed {analyzer : Analyzer} {form : Form} {s t : State}
    {root node : Node} {trail : List Place} {scope : Scope} {lambda : Lambda Node}
    (run : Gives (analyzer.analyzeTopLevel form) s root t) (leads : root.Leads trail node)
    (listed : (scope, lambda) ∈ node.shape.functions node.scope) :
    ∃ names, lambda.Placed analyzer.settings.coreNamespace scope names := by
  obtain ⟨seen, coherent⟩ := analyzeTopLevel_sees run leads
  obtain ⟨registry, lawful⟩ := coherent.fits.lawful
  obtain ⟨lambdaLawful, fields, plain, between, visited⟩ := Shape.function_cases lawful listed
  have inside : lambda.body.scope = lambda.bodyScope scope := coherent.fits.steps _ visited
  refine ⟨fields.map .written ++ enclosing trail, lambdaLawful, seen.names.trans between,
    ?_, ?_, ?_⟩
  · exact List.forall_mem_append.mpr ⟨BoundName.valid_written plain, seen.valid⟩
  · rw [inside]
    exact (Scope.Extends.introduce scope lambda.params).same_names rfl rfl
  · exact coherent.below (.into (Shape.mem_parts_iff.mpr ⟨_, visited⟩) (.here lambda.body))

section Placed

variable {core : String} {scope : Scope} {names : List BoundName} {lambda : Lambda Node}
variable (placed : lambda.Placed core scope names)

include placed

theorem Lambda.Placed.mem_uses {symbol : Symbol} :
    symbol ∈ lambda.uses ↔
      symbol ∈ scope.locals ∧ ∀ param ∈ lambda.params, param.name ≠ symbol.name := by
  rw [placed.lawful.uses, List.mem_filter]
  simp

/-- What is captured is local outside and no parameter. -/
theorem Lambda.Placed.uses_local {symbol : Symbol} (used : symbol ∈ lambda.uses) :
    scope.isLocal symbol = true ∧ ∀ param ∈ lambda.params, param.name ≠ symbol.name := by
  obtain ⟨member, apart⟩ := placed.mem_uses.mp used
  refine ⟨?_, apart⟩
  have plain : symbol.isQualified = false :=
    Symbol.plain_iff.mp (placed.around.plain_of_mem placed.valid member)
  have found : Ordered.hasMember Symbol.cmp symbol scope.locals = true :=
    List.any_eq_true.mpr ⟨symbol, member, by simp [Symbol.cmp_eq_iff]⟩
  rw [Scope.isLocal, plain, found]
  rfl

/-- A variable of the body that nothing inside binds is captured under the name it goes
by in the body. -/
theorem Lambda.Placed.captures {trail : List Place} {node : Node} {name : Symbol}
    {shadow : Option Symbol} (below : lambda.body.Leads trail node)
    (shape : node.shape = .localVar name shadow)
    (outside : BoundName.find? name.name (enclosing trail ++ lambda.params.map .written) = none) :
    ∃ index : Nat, lambda.uses[index]?.map Symbol.name = some name.name ∧
      (lambda.captured scope)[index]?.map Symbol.name = some (shadow.getD name).name := by
  -- Nothing inside binds the name, so it is looked up alike in both scopes.
  have seen := placed.coherent.sees below
  have known := placed.body.trans seen.names
  obtain ⟨isLocal, rfl⟩ := (placed.coherent.below below).fits.localVar shape
  have sameShadow : node.scope.shadow? name = scope.shadow? name := by
    rw [known.shadows, outside]
  have sameLocal : Ordered.hasMember Symbol.cmp name node.scope.locals =
      Ordered.hasMember Symbol.cmp name scope.locals := by
    rw [known.locals, outside]
    rfl
  have total := placed.around.trans known
  rw [total.isLocal_eq, Bool.and_eq_true, ← total.hasMember_eq, sameLocal] at isLocal
  obtain ⟨use, member, equal⟩ := List.any_eq_true.mp isLocal.2
  have same : name.name = use.name := (Symbol.cmp_eq_iff name use).mp (of_decide_eq_true equal)
  have used : use ∈ lambda.uses := by
    refine placed.mem_uses.mpr ⟨member, fun param listed hides => ?_⟩
    rw [BoundName.find?_append, Option.or_eq_none_iff] at outside
    have bound := List.find?_eq_none.mp outside.2 (.written param) (List.mem_map_of_mem listed)
    exact bound (decide_eq_true (hides.trans same.symm))
  obtain ⟨index, found⟩ := List.getElem?_of_mem used
  refine ⟨index, ?_, ?_⟩
  · rw [found, Option.map_some, same]
  · rw [Lambda.captured, List.getElem?_map, found, sameShadow, Option.map_some, Option.map_some,
      placed.around.shadow?_eq use, placed.around.shadow?_eq name, same]
    cases (BoundName.find? use.name names).bind BoundName.shadow with
    | none => exact congrArg some same.symm
    | some rendered => rfl

end Placed

/-- A function captures no parameter and only names that are local where it stands. Each
local variable of its body whose binder lies outside is among the captured names, and is
spelled there as it is in the body. -/
theorem captures_complete {analyzer : Analyzer} {form : Form} {s t : State} {root : Node}
    (run : Gives (analyzer.analyzeTopLevel form) s root t) :
    ∀ trail node scope lambda, root.Leads trail node →
      (scope, lambda) ∈ node.shape.functions node.scope →
      (∀ use ∈ lambda.uses, scope.isLocal use = true ∧
        ∀ param ∈ lambda.params, param.name ≠ use.name) ∧
      (∀ inner found name shadow, lambda.body.Leads inner found →
        found.shape = .localVar name shadow →
        BoundName.find? name.name (enclosing inner ++ lambda.params.map .written) = none →
        ∃ index : Nat, lambda.uses[index]?.map Symbol.name = some name.name ∧
          (lambda.captured scope)[index]?.map Symbol.name = some (shadow.getD name).name) := by
  intro trail node scope lambda leads listed
  obtain ⟨names, placed⟩ := analyzeTopLevel_placed run leads listed
  exact ⟨fun use used => placed.uses_local used,
    fun inner found name shadow below shape outside => placed.captures below shape outside⟩

/-- The form `(let [a 1] (fn [b] (fn [c] [a c])))`. -/
def Form.nestedFn : Form :=
  .list [.plainSymbol "let", .vector [.plainSymbol "a", .int 1] none [],
    .list [.plainSymbol "fn", .vector [.plainSymbol "b"] none [],
      .list [.plainSymbol "fn", .vector [.plainSymbol "c"] none [],
        .vector [.plainSymbol "a", .plainSymbol "c"] none []] none []] none []] none []

set_option maxRecDepth 10000 in
/-- The inner function captures `a` under its generated name. -/
theorem captures_complete_nested : ∃ root t trail node scope lambda,
    Gives (({} : Analyzer).analyzeTopLevel .nestedFn) { registry := .ofSettings {} } root t ∧
    root.Leads trail node ∧ (scope, lambda) ∈ node.shape.functions node.scope ∧
    ∃ index : Nat, lambda.uses[index]?.map Symbol.name = some (.plain "a") ∧
      (lambda.captured scope)[index]?.map Symbol.name = some (.plain "a_1") := by
  obtain ⟨root, t, trail, node, scope, lambda, inner, found, run, leads, listed, below, shape,
      outside⟩ : ∃ root t trail node scope lambda inner found,
      Gives (({} : Analyzer).analyzeTopLevel .nestedFn) { registry := .ofSettings {} } root t ∧
      root.Leads trail node ∧ (scope, lambda) ∈ node.shape.functions node.scope ∧
      lambda.body.Leads inner found ∧
      found.shape = .localVar (.plain "a") (some (.plain "a_1")) ∧
      BoundName.find? (.plain "a") (enclosing inner ++ lambda.params.map .written) = none :=
    ⟨_, _, _, _, _, _, _, _, rfl, .into (.tail _ (.head _)) (.into (.head _) (.into (.head _)
      (.into (.head _) (.here _)))), .head _, .into (.head _) (.into (.head _) (.here _)), rfl, rfl⟩
  exact ⟨root, t, trail, node, scope, lambda, run, leads, listed,
    (captures_complete run trail node scope lambda leads listed).2 inner found _ _ below shape
      outside⟩

end LispFront
