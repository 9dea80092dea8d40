import LispFront.Proofs.Coherence
import LispFront.Proofs.Ordered

/-! The scope at a position is the scope of the root extended by the names bound on the way
(`Node.Coherent.sees`). A local variable therefore means the innermost binder of its name around it,
and a global one has a name that nothing around it binds. -/

namespace LispFront

variable {outer middle inner : Scope} {names more : List BoundName}

/-- The inner scope knows the names of the outer one and these, of which the first
count most. -/
structure Scope.Extends (outer : Scope) (names : List BoundName) (inner : Scope) : Prop where
  locals : ∀ symbol : Symbol, Ordered.hasMember Symbol.cmp symbol inner.locals =
    ((BoundName.find? symbol.name names).isSome ||
      Ordered.hasMember Symbol.cmp symbol outer.locals)
  shadows : ∀ symbol, inner.shadow? symbol =
    match BoundName.find? symbol.name names with
    | some bound => bound.shadow
    | none => outer.shadow? symbol
  members : ∀ symbol ∈ inner.locals, symbol ∈ names.map BoundName.symbol ∨ symbol ∈ outer.locals

theorem BoundName.find?_some {name : Name} {bound : BoundName}
    (found : find? name names = some bound) : bound ∈ names ∧ bound.symbol.name = name := by
  have matching := List.find?_some found
  exact ⟨List.mem_of_find?_eq_some found, of_decide_eq_true matching⟩

theorem BoundName.find?_isSome {name : Name} :
    (find? name names).isSome = true ↔ ∃ bound ∈ names, bound.symbol.name = name := by
  simp [find?, List.find?_isSome]

theorem BoundName.find?_append (name : Name) :
    find? name (names ++ more) = (find? name names).or (find? name more) :=
  List.find?_append

theorem BoundName.find?_written (name : Name) (symbols : List Symbol) :
    find? name (symbols.map written) =
      (symbols.find? fun symbol => symbol.name = name).map written := by
  simp only [find?, List.find?_map]
  rfl

section Scope

variable (scope : Scope) (symbols : List Symbol)

theorem Scope.hasMember_bind (symbol : Symbol) :
    Ordered.hasMember Symbol.cmp symbol (scope.bind symbols).locals =
      ((symbols.find? fun bound => bound.name = symbol.name).isSome ||
        Ordered.hasMember Symbol.cmp symbol scope.locals) := by
  induction symbols generalizing scope with
  | nil => rfl
  | cons first rest ih =>
    have step := ih (scope.bind [first])
    simp only [Scope.bind, List.foldl_cons, List.foldl_nil, Ordered.hasMember_insertMember,
      Symbol.cmp_eq_iff] at step ⊢
    rw [step, List.find?_cons]
    by_cases same : first.name = symbol.name
    · simp [same]
    · simp [same, Ne.symm same]

theorem Scope.mem_bind {symbol : Symbol} (member : symbol ∈ (scope.bind symbols).locals) :
    symbol ∈ symbols ∨ symbol ∈ scope.locals := by
  induction symbols generalizing scope with
  | nil => exact .inr member
  | cons first rest ih =>
    rcases ih (scope.bind [first]) member with later | before
    · exact .inl (List.mem_cons_of_mem first later)
    · rcases Ordered.mem_insertMember before with rfl | before
      · exact .inl List.mem_cons_self
      · exact .inr before

theorem Scope.shadow?_unshadow (symbol : Symbol) :
    (scope.unshadow symbols).shadow? symbol =
      if (symbols.find? fun bound => bound.name = symbol.name).isSome then none
      else scope.shadow? symbol := by
  induction symbols generalizing scope with
  | nil => rfl
  | cons first rest ih =>
    have step := ih (scope.unshadow [first])
    simp only [Scope.unshadow, Scope.shadow?, List.foldl_cons, List.foldl_nil,
      Ordered.find?_erase, Symbol.cmp_eq_iff] at step ⊢
    rw [step, List.find?_cons]
    by_cases same : first.name = symbol.name
    · simp [same]
    · simp [same, Ne.symm same]

end Scope

namespace Scope.Extends

theorem of_same_names (locals : inner.locals = outer.locals)
    (shadows : inner.shadows = outer.shadows) : outer.Extends [] inner where
  locals symbol := by simp [BoundName.find?, locals]
  shadows symbol := by simp [BoundName.find?, Scope.shadow?, shadows]
  members symbol member := .inr (locals ▸ member)

theorem refl (scope : Scope) : scope.Extends [] scope := of_same_names rfl rfl

theorem trans (first : outer.Extends names middle) (second : middle.Extends more inner) :
    outer.Extends (more ++ names) inner where
  locals symbol := by
    rw [second.locals, first.locals, BoundName.find?_append, Option.isSome_or, Bool.or_assoc]
  shadows symbol := by
    rw [second.shadows, first.shadows, BoundName.find?_append]
    cases BoundName.find? symbol.name more <;> rfl
  members symbol member := by
    rw [List.map_append, List.mem_append, or_assoc]
    exact (second.members symbol member).imp_right (first.members symbol)

theorem same_names (known : outer.Extends names middle) (locals : inner.locals = middle.locals)
    (shadows : inner.shadows = middle.shadows) : outer.Extends names inner :=
  known.trans (of_same_names locals shadows)

/-- A binding goes under its generated name. -/
theorem extend {ν : Type} (scope : Scope) (binding : Binding ν) :
    scope.Extends [binding.bound] (scope.extend binding) where
  locals symbol := by
    refine (scope.hasMember_bind [binding.symbol] symbol).trans ?_
    by_cases same : binding.symbol.name = symbol.name <;>
      simp [BoundName.find?, Binding.bound, same]
  shadows symbol := by
    simp only [Scope.extend, Scope.shadow?, Scope.shadow, Ordered.find?_insert,
      Symbol.cmp_eq_iff, BoundName.find?, Binding.bound, List.find?_cons, List.find?_nil]
    by_cases same : symbol.name = binding.symbol.name <;> simp [same, Scope.bind, eq_comm]
  members symbol member := scope.mem_bind [binding.symbol] member

/-- Names bound all at once go under their own spelling. -/
theorem introduce (scope : Scope) (symbols : List Symbol) :
    scope.Extends (symbols.map .written) (scope.introduce symbols) where
  locals symbol := by
    refine (scope.hasMember_bind symbols symbol).trans ?_
    rw [BoundName.find?_written, Option.isSome_map]
  shadows symbol := by
    rw [Scope.introduce, Scope.shadow?_unshadow, BoundName.find?_written]
    cases symbols.find? fun bound => bound.name = symbol.name <;> rfl
  members symbol member := by
    have own : (symbols.map BoundName.written).map BoundName.symbol = symbols := by
      simp [Function.comp_def, BoundName.written]
    rw [own]
    exact scope.mem_bind symbols member

end Scope.Extends

/-- A name is local inside if it is bound on the way or local outside. -/
theorem Scope.Extends.isLocal_inner (known : outer.Extends names inner) (symbol : Symbol) :
    Resolve.isLocal inner symbol =
      (!symbol.isQualified && (BoundName.find? symbol.name names).isSome ||
        Resolve.isLocal outer symbol) := by
  simp only [Resolve.isLocal, Scope.isLocal, known.locals, known.shadows]
  cases symbol.isQualified <;> cases BoundName.find? symbol.name names <;> simp

/-- Binders bind plain names, under their own spelling or under a numbered one. -/
structure BoundName.Valid (bound : BoundName) : Prop where
  plain : bound.symbol.Plain
  numbered : ∀ shadow, bound.shadow = some shadow →
    ∃ number, shadow = NameSupply.numbered bound.symbol.base number

theorem BoundName.valid_written {symbols : List Symbol} (plain : ∀ symbol ∈ symbols, symbol.Plain) :
    ∀ bound ∈ symbols.map written, bound.Valid := by
  rintro _ member
  obtain ⟨symbol, listed, rfl⟩ := List.mem_map.mp member
  exact ⟨plain symbol listed, nofun⟩

/-- What a part sees of the node around it. -/
structure Scope.Reaches (outer : Scope) (place : Place) (inner : Scope) : Prop where
  frame : inner.frame = place.role.frame outer.frame
  names : outer.Extends place.binds inner
  valid : ∀ bound ∈ place.binds, bound.Valid

namespace Scope.Reaches

theorem of_inner (blocked : inner.frame = none) (names : outer.Extends [] inner) :
    outer.Reaches .inner inner where
  frame := blocked
  names := names
  valid := nofun

theorem argument (scope : Scope) : scope.Reaches .inner scope.argument :=
  of_inner rfl (.of_same_names rfl rfl)

theorem effect (scope : Scope) : scope.Reaches .inner scope.effect :=
  of_inner rfl (.of_same_names rfl rfl)

theorem tail (scope : Scope) : scope.Reaches .tail scope where
  frame := rfl
  names := .refl scope
  valid := nofun

end Scope.Reaches

namespace Binding

variable {scope : Scope} {earlier : List BoundName} {bindings : List (Binding Node)}

theorem names_mem_steps {binding : Binding Node} (member : binding ∈ bindings) :
    .names binding.symbol binding.shadow ∈ Binding.steps scope earlier bindings := by
  induction bindings generalizing scope earlier with
  | nil => contradiction
  | cons first rest ih =>
    rcases List.mem_cons.mp member with rfl | later
    · exact List.mem_cons_self
    · exact List.mem_cons_of_mem _ (List.mem_cons_of_mem _ (ih later))

theorem valid_allBound (lawful : ∀ binding ∈ bindings, binding.Lawful)
    (fits : ∀ step ∈ Binding.steps scope earlier bindings, step.Fits) :
    ∀ bound ∈ allBound bindings, bound.Valid := by
  intro bound member
  obtain ⟨binding, listed, rfl⟩ := List.mem_map.mp (List.mem_reverse.mp member)
  refine ⟨(lawful binding listed).plain, ?_⟩
  rintro _ ⟨⟩
  exact fits _ (names_mem_steps listed)

theorem allBound_cons (binding : Binding Node) :
    allBound (binding :: bindings) = allBound bindings ++ [binding.bound] := by
  simp [allBound]

theorem extends_foldl : scope.Extends (allBound bindings) (bindings.foldl Scope.extend scope) := by
  induction bindings generalizing scope with
  | nil => exact .refl scope
  | cons binding rest ih =>
    rw [allBound_cons]
    exact (Scope.Extends.extend scope binding).trans ih

/-- A first value sees the names bound before it. -/
theorem reaches {place : Place} {child : Node} (known : outer.Extends earlier scope)
    (valid : ∀ bound ∈ allBound bindings ++ earlier, bound.Valid)
    (member : .visits place inner child ∈ Binding.steps scope earlier bindings) :
    outer.Reaches place inner := by
  induction bindings generalizing scope earlier with
  | nil => contradiction
  | cons binding rest ih =>
    simp only [Binding.steps, List.mem_cons, reduceCtorEq, false_or, Step.visits.injEq] at member
    rw [allBound_cons, List.append_assoc] at valid
    rcases member with ⟨rfl, rfl, rfl⟩ | later
    · refine ⟨rfl, known.same_names rfl rfl, fun bound listed => valid bound ?_⟩
      exact List.mem_append_right _ (List.mem_cons_of_mem _ listed)
    · exact ih (known.trans (.extend scope binding)) valid later

end Binding

theorem Scope.returning_names (scope : Scope) : scope.Extends [] scope.returning := by
  unfold Scope.returning
  split
  · exact .of_same_names rfl rfl
  · exact .refl scope

theorem Scope.Extends.of_returning (known : outer.returning.Extends names inner) :
    outer.Extends names inner := by
  have extended := outer.returning_names.trans known
  rw [List.append_nil] at extended
  exact extended

theorem Lambda.reaches {scope outer : Scope} {fields : List Symbol} {lambda : Lambda Node}
    {place : Place} {child : Node} (lawful : lambda.Lawful scope)
    (known : outer.Extends (fields.map .written) scope) (plain : ∀ field ∈ fields, field.Plain)
    (member : .visits place inner child ∈ lambda.steps scope fields) :
    outer.Reaches place inner := by
  simp only [Lambda.steps, List.mem_cons, List.not_mem_nil, or_false, reduceCtorEq, false_or,
    Step.visits.injEq] at member
  obtain ⟨rfl, rfl, rfl⟩ := member
  have names := known.trans (.introduce scope lambda.params)
  refine ⟨rfl, names.same_names rfl rfl, ?_⟩
  exact List.forall_mem_append.mpr
    ⟨BoundName.valid_written lawful.plain, BoundName.valid_written plain⟩

theorem Handler.reaches {scope outer : Scope} {handler : Handler Node} {place : Place}
    {child : Node} (lawful : handler.Lawful scope) (known : outer.Extends [] scope)
    (member : .visits place inner child ∈ handler.steps scope) : outer.Reaches place inner := by
  simp only [Handler.steps, List.mem_cons, List.not_mem_nil, or_false, Step.visits.injEq] at member
  rcases member with ⟨rfl, rfl, rfl⟩ | ⟨rfl, rfl, rfl⟩
  · exact .of_inner rfl (known.same_names rfl rfl)
  · have names := known.trans (.introduce scope [handler.symbol])
    refine ⟨rfl, names.same_names rfl rfl, ?_⟩
    exact BoundName.valid_written (List.forall_mem_singleton.mpr lawful.plain)

/-- One step from a node to a part, whatever the node is. -/
theorem Shape.reaches {core : String} {registry : Registry} {scope : Scope} {shape : Shape Node}
    {place : Place} {child : Node} (lawful : shape.Lawful core registry scope)
    (fits : ∀ step ∈ shape.steps scope, step.Fits)
    (member : .visits place inner child ∈ shape.steps scope) : scope.Reaches place inner := by
  cases shape with
  | branch test yes no =>
    simp only [Shape.steps, List.mem_cons, List.not_mem_nil, or_false, Step.visits.injEq] at member
    rcases member with ⟨rfl, rfl, _⟩ | ⟨rfl, rfl, _⟩ | ⟨rfl, rfl, _⟩
    · exact .argument _
    · exact .tail _
    · exact .tail _
  | block stmts ret =>
    simp only [Shape.steps, List.mem_append, List.mem_map, List.mem_singleton,
      Step.visits.injEq] at member
    rcases member with ⟨_, _, rfl, rfl, _⟩ | ⟨rfl, rfl, _⟩
    · exact .effect _
    · exact .tail _
  | letIn bindings body =>
    have valid := Binding.valid_allBound lawful fun step listed =>
      fits step (List.mem_append_left _ listed)
    simp only [Shape.steps, List.mem_append, List.mem_singleton, Step.visits.injEq] at member
    rcases member with early | ⟨rfl, rfl, rfl⟩
    · exact Binding.reaches scope.returning_names (by simpa using valid) early
    · refine ⟨?_, ?_, valid⟩
      · rw [Scope.foldl_extend_frame, Scope.returning_frame]
        rfl
      · exact Binding.extends_foldl.of_returning
  | loop frame bindings body =>
    have valid := Binding.valid_allBound lawful.1 fun step listed =>
      fits step (List.mem_cons_of_mem _ (List.mem_append_left _ listed))
    simp only [Shape.steps, List.cons_append, List.mem_cons, List.mem_append, List.not_mem_nil,
      or_false, reduceCtorEq, false_or, Step.visits.injEq] at member
    rcases member with early | ⟨rfl, rfl, rfl⟩
    · exact Binding.reaches scope.returning_names (by simpa using valid) early
    · exact ⟨rfl, Binding.extends_foldl.of_returning.same_names rfl rfl, valid⟩
  | fn lambda =>
    have known : scope.Extends (([] : List Symbol).map .written) scope := .refl scope
    exact Lambda.reaches lawful known (List.forall_mem_nil _) member
  | recur frame args =>
    simp only [Shape.steps, List.mem_cons, List.mem_map, reduceCtorEq, false_or,
      Step.visits.injEq] at member
    obtain ⟨_, _, rfl, rfl, _⟩ := member
    exact .argument scope
  | foreach value key coll body =>
    simp only [Shape.steps, List.mem_cons, List.not_mem_nil, or_false, Step.visits.injEq] at member
    rcases member with ⟨rfl, rfl, _⟩ | ⟨rfl, rfl, _⟩
    · exact .argument scope
    · have names := Scope.Extends.introduce scope (value :: key.toList)
      exact ⟨rfl, names.same_names rfl rfl, BoundName.valid_written lawful⟩
  | guarded body handlers cleanup =>
    simp only [Shape.steps, List.cons_append, List.mem_cons, List.mem_append, List.mem_flatMap,
      List.mem_map, Step.visits.injEq] at member
    rcases member with ⟨rfl, rfl, _⟩ | ⟨handler, listed, visited⟩ | ⟨_, _, rfl, rfl, _⟩
    · exact .of_inner rfl (scope.returning_names.same_names rfl rfl)
    · exact Handler.reaches (lawful handler listed) scope.returning_names visited
    · exact .effect scope
  | define home name metadata metadataNode init =>
    simp only [Shape.steps, List.mem_map, Step.visits.injEq] at member
    obtain ⟨_, _, rfl, rfl, _⟩ := member
    exact .of_inner rfl (.of_same_names rfl rfl)
  | defStruct home name fields interfaces =>
    obtain ⟨plain, methods⟩ := lawful
    simp only [Shape.steps, List.mem_flatMap, List.mem_cons, reduceCtorEq, false_or] at member
    obtain ⟨implementation, listed, method, own, visited⟩ := member
    obtain ⟨same, lambda⟩ := methods implementation listed method own
    have known : scope.Extends (fields.map .written) (scope.ofStruct home name fields) :=
      (Scope.Extends.introduce scope fields).same_names rfl rfl
    exact Lambda.reaches (same ▸ lambda) known plain visited
  | _ =>
    simp only [Shape.steps, List.mem_map, Step.visits.injEq] at member
    obtain ⟨_, _, rfl, rfl, _⟩ := member
    exact .argument scope

/-- The scope at a position, told by the way to it. -/
structure Scope.Sees (outer : Scope) (trail : List Place) (inner : Scope) : Prop where
  frame : inner.frame = frameAt outer.frame trail
  names : outer.Extends (enclosing trail) inner
  valid : ∀ bound ∈ enclosing trail, bound.Valid

/-- The steps of a way add up. -/
theorem Node.Coherent.sees {core : String} {root node : Node} {trail : List Place}
    (coherent : root.Coherent core) (leads : root.Leads trail node) :
    root.scope.Sees trail node.scope := by
  induction leads with
  | here node => exact ⟨rfl, .refl node.scope, nofun⟩
  | @into node child found place trail part _ ih =>
    have fits := coherent.fits
    obtain ⟨registry, lawful⟩ := fits.lawful
    have step := Shape.reaches lawful fits.steps (fits.visits part)
    have rest := ih (coherent.below (.into part (.here child)))
    refine ⟨?_, step.names.trans rest.names, ?_⟩
    · rw [rest.frame, step.frame]
      rfl
    · exact List.forall_mem_append.mpr ⟨rest.valid, step.valid⟩

theorem analyzeTopLevel_sees {analyzer : Analyzer} {form : Form} {s t : State} {root node : Node}
    {trail : List Place} (run : Gives (analyzer.analyzeTopLevel form) s root t)
    (leads : root.Leads trail node) :
    Scope.top.Sees trail node.scope ∧ node.Coherent analyzer.settings.coreNamespace := by
  obtain ⟨placed, coherent⟩ := analyze_coherent run
  exact ⟨placed ▸ coherent.sees leads, coherent.below leads⟩

section Top

variable {scope : Scope} (known : Scope.top.Extends names scope) (symbol : Symbol)

include known

theorem Scope.Extends.shadow?_eq :
    scope.shadow? symbol = (BoundName.find? symbol.name names).bind BoundName.shadow := by
  rw [known.shadows]
  cases BoundName.find? symbol.name names <;> rfl

theorem Scope.Extends.hasMember_eq :
    Ordered.hasMember Symbol.cmp symbol scope.locals =
      (BoundName.find? symbol.name names).isSome := by
  rw [known.locals]
  exact Bool.or_false _

theorem Scope.Extends.isLocal_eq :
    Resolve.isLocal scope symbol =
      (!symbol.isQualified && (BoundName.find? symbol.name names).isSome) := by
  rw [Resolve.isLocal, Scope.isLocal, known.hasMember_eq, known.shadow?_eq]
  cases symbol.isQualified <;> cases BoundName.find? symbol.name names <;> simp

end Top

/-- Only binders make names local. -/
theorem Scope.Extends.plain_of_mem {scope : Scope} {symbol : Symbol}
    (known : Scope.top.Extends names scope) (valid : ∀ bound ∈ names, bound.Valid)
    (member : symbol ∈ scope.locals) : symbol.Plain := by
  rcases known.members symbol member with around | impossible
  · obtain ⟨bound, listed, rfl⟩ := List.mem_map.mp around
    exact (valid bound listed).plain
  · contradiction

theorem Node.Fits.localVar {core : String} {node : Node} {name : Symbol} {shadow : Option Symbol}
    (fits : node.Fits core) (shape : node.shape = .localVar name shadow) :
    Resolve.isLocal node.scope name = true ∧ shadow = node.scope.shadow? name := by
  obtain ⟨registry, lawful⟩ := fits.lawful
  rw [shape] at lawful
  rcases Resolve.shape_cases lawful with
    ⟨_, other⟩ | ⟨_, other⟩ | ⟨isLocal, same⟩ | ⟨_, _, _, other⟩
  · contradiction
  · contradiction
  · exact ⟨isLocal, (Shape.localVar.inj same).2⟩
  · contradiction

theorem Node.Fits.globalVar {core home : String} {node : Node} {name : Symbol}
    {metadata : Entries} (fits : node.Fits core)
    (shape : node.shape = .globalVar home name metadata) :
    Resolve.isLocal node.scope name = false := by
  obtain ⟨registry, lawful⟩ := fits.lawful
  rw [shape] at lawful
  rcases Resolve.shape_cases lawful with ⟨_, other⟩ | ⟨_, other⟩ | ⟨_, other⟩ | ⟨notLocal, _⟩
  · contradiction
  · contradiction
  · contradiction
  · exact notLocal

/-- A local variable stands for the innermost binder of its name around it: under the
generated name if that is a binding of a `let` or `loop`, and under its own if it is a
parameter, a field, a caught exception or an element. A global variable with a plain
name has no binder around it. -/
theorem variable_binder {analyzer : Analyzer} {form : Form} {s t : State} {root : Node}
    (run : Gives (analyzer.analyzeTopLevel form) s root t) :
    (∀ trail node name shadow, root.Leads trail node → node.shape = .localVar name shadow →
      ∃ bound, BoundName.find? name.name (enclosing trail) = some bound ∧ shadow = bound.shadow) ∧
    (∀ trail node home name metadata, root.Leads trail node →
      node.shape = .globalVar home name metadata → name.isQualified = false →
      BoundName.find? name.name (enclosing trail) = none) := by
  constructor
  · intro trail node name shadow leads shape
    obtain ⟨seen, coherent⟩ := analyzeTopLevel_sees run leads
    obtain ⟨isLocal, rfl⟩ := coherent.fits.localVar shape
    rw [seen.names.isLocal_eq, Bool.and_eq_true] at isLocal
    obtain ⟨bound, found⟩ := Option.isSome_iff_exists.mp isLocal.2
    refine ⟨bound, found, ?_⟩
    rw [seen.names.shadow?_eq, found, Option.bind_some]
  · intro trail node home name metadata leads shape plain
    obtain ⟨seen, coherent⟩ := analyzeTopLevel_sees run leads
    have notLocal := coherent.fits.globalVar shape
    rw [seen.names.isLocal_eq, plain, Bool.not_false, Bool.true_and] at notLocal
    exact Option.not_isSome_iff_eq_none.mp (Bool.eq_false_iff.mp notLocal)

/-- The form `(let [a 1] (fn [b] (let [a b] a)))`. -/
def Form.hidingLet : Form :=
  .list [.plainSymbol "let", .vector [.plainSymbol "a", .int 1] none [],
    .list [.plainSymbol "fn", .vector [.plainSymbol "b"] none [],
      .list [.plainSymbol "let", .vector [.plainSymbol "a", .plainSymbol "b"] none [],
        .plainSymbol "a"] none []] none []] none []

set_option maxRecDepth 10000 in
/-- The last `a` is the inner one. -/
theorem variable_binder_hiding : ∃ root t trail node,
    Gives (({} : Analyzer).analyzeTopLevel .hidingLet) { registry := .ofSettings {} } root t ∧
    root.Leads trail node ∧ node.shape = .localVar (.plain "a") (some (.plain "a_2")) ∧
    ∃ bound, BoundName.find? (.plain "a") (enclosing trail) = some bound ∧
      some (.plain "a_2") = bound.shadow := by
  obtain ⟨root, t, trail, node, run, leads, shape⟩ : ∃ root t trail node,
      Gives (({} : Analyzer).analyzeTopLevel .hidingLet) { registry := .ofSettings {} } root t ∧
      root.Leads trail node ∧ node.shape = .localVar (.plain "a") (some (.plain "a_2")) :=
    ⟨_, _, _, _, rfl, .into (.tail _ (.head _)) (.into (.head _) (.into (.head _) (.into (.head _)
      (.into (.tail _ (.head _)) (.into (.head _) (.here _)))))), rfl⟩
  exact ⟨root, t, trail, node, run, leads, shape,
    (variable_binder run).1 trail node _ _ leads shape⟩

end LispFront
