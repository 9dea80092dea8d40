import LispFront.Analysis.Analyzer
import LispFront.Proofs.Outcome
import LispFront.Proofs.PlainNames
import LispFront.Proofs.Positions

/-! The shape of a node and its scope tell what its analysis did, step by step: the frame it opened,
the names it drew for bindings, the scope it gave to each part. `Shape.steps` says so on the tree
alone, with no reference to forms. `Runs` relates the states around such steps. -/

namespace LispFront

variable {ν : Type}

inductive Step (ν : Type) where
  /-- A function or loop gets its frame. -/
  | opens (frame : Frame)
  /-- A `recur` marks the frame it restarts. -/
  | restarts (frame : Frame)
  /-- The generated name of a binding is drawn. -/
  | names (symbol shadow : Symbol)
  /-- The interface of a group of methods is looked up. -/
  | resolves (interface : String)
  /-- A part is analyzed in its scope. -/
  | visits (place : Place) (scope : Scope) (node : ν)

def Step.part? : Step ν → Option (Place × ν)
  | .visits place _ node => some (place, node)
  | _ => none

/-- The scope behind a binding. -/
def Scope.extend (scope : Scope) (binding : Binding ν) : Scope :=
  (scope.bind [binding.symbol]).shadow binding.symbol binding.shadow

theorem Scope.foldl_extend_frame (scope : Scope) (bindings : List (Binding ν)) :
    (bindings.foldl Scope.extend scope).frame = scope.frame := by
  induction bindings generalizing scope with
  | nil => rfl
  | cons binding rest ih => exact ih (scope.extend binding)

/-- The scope of the methods of a struct. -/
def Scope.ofStruct (scope : Scope) (home : String) (name : Symbol) (fields : List Symbol) :
    Scope :=
  (scope.introduce fields).labelled (platformName home name.base)

def Lambda.bodyScope (scope : Scope) (lambda : Lambda ν) : Scope :=
  ((scope.introduce lambda.params).withContext .result).enter lambda.frame

def Binding.steps : Scope → List BoundName → List (Binding ν) → List (Step ν)
  | _, _, [] => []
  | scope, earlier, binding :: rest =>
    .names binding.symbol binding.shadow ::
      .visits { role := .inner, binds := earlier }
        (scope.argument.labelled (scope.nestedLabel binding.symbol.base)) binding.init ::
      steps (scope.extend binding) (binding.bound :: earlier) rest

def Lambda.steps (scope : Scope) (fields : List Symbol) (lambda : Lambda ν) : List (Step ν) :=
  [.opens lambda.frame, .visits (lambda.part fields).1 (lambda.bodyScope scope) lambda.body]

def Handler.steps (scope : Scope) (handler : Handler ν) : List (Step ν) :=
  [.visits .inner scope.argument handler.exception,
    .visits { role := .inner, binds := [.written handler.symbol] }
      (scope.introduce [handler.symbol]).block handler.body]

/-- The steps of a node with this scope and shape. Parts that are not listed apart are
arguments. -/
def Shape.steps (scope : Scope) : Shape ν → List (Step ν)
  | .branch test yes no =>
    [.visits .inner scope.argument test, .visits .tail scope yes, .visits .tail scope no]
  | .block stmts ret =>
    stmts.map (.visits .inner scope.effect) ++ [.visits .tail scope ret]
  | .letIn bindings body =>
    Binding.steps scope.returning [] bindings ++
      [.visits { role := .tail, binds := Binding.allBound bindings }
        (bindings.foldl Scope.extend scope.returning) body]
  | .loop frame bindings body =>
    .opens frame :: Binding.steps scope.returning [] bindings ++
      [.visits { role := .body frame, binds := Binding.allBound bindings }
        ((bindings.foldl Scope.extend scope.returning).enter frame) body]
  | .fn lambda => lambda.steps scope []
  | .recur frame args => .restarts frame :: args.map (.visits .inner scope.argument)
  | .foreach value key coll body =>
    [.visits .inner scope.argument coll,
      .visits { role := .inner, binds := (value :: key.toList).map .written }
        (scope.introduce (value :: key.toList)).effect body]
  | .guarded body handlers cleanup =>
    .visits .inner scope.returning.block body ::
      handlers.flatMap (Handler.steps scope.returning) ++
      cleanup.toList.map (.visits .inner scope.effect)
  | .define home name _ metadataNode init =>
    [metadataNode, init].map (.visits .inner
      ((scope.argument.allowDef false).labelled (platformName home name.base)))
  | .defStruct home name fields interfaces =>
    interfaces.flatMap fun implementation =>
      .resolves implementation.interface :: implementation.methods.flatMap fun method =>
        method.lambda.steps (scope.ofStruct home name fields) fields
  | shape => shape.children.map (.visits .inner scope.argument)

theorem filterMap_visits (place : Place) (scope : Scope) (nodes : List ν) :
    (nodes.map (Step.visits place scope)).filterMap Step.part? = nodes.map (Prod.mk place) := by
  simp [List.filterMap_map, Function.comp_def, Step.part?]

theorem Binding.filterMap_steps (scope : Scope) (earlier : List BoundName)
    (bindings : List (Binding ν)) :
    (Binding.steps scope earlier bindings).filterMap Step.part? =
      Binding.parts earlier bindings := by
  induction bindings generalizing scope earlier with
  | nil => rfl
  | cons binding rest ih =>
    simp only [Binding.steps, Binding.parts, List.filterMap_cons, Step.part?, ih]

theorem Handler.filterMap_steps (scope : Scope) (handler : Handler ν) :
    (handler.steps scope).filterMap Step.part? = handler.parts := rfl

theorem Lambda.filterMap_steps (scope : Scope) (fields : List Symbol) (lambda : Lambda ν) :
    (lambda.steps scope fields).filterMap Step.part? = [lambda.part fields] := rfl

/-- The parts of a node are what its steps visit, in the same order. -/
theorem Shape.filterMap_steps (scope : Scope) (shape : Shape ν) :
    (shape.steps scope).filterMap Step.part? = shape.parts := by
  cases shape with
  | letIn bindings body =>
    simp only [Shape.steps, Shape.parts, List.filterMap_append, Binding.filterMap_steps,
      List.filterMap_cons, List.filterMap_nil, Step.part?]
  | loop frame bindings body =>
    simp only [Shape.steps, Shape.parts, List.cons_append, List.filterMap_append,
      Binding.filterMap_steps, List.filterMap_cons, List.filterMap_nil, Step.part?]
  | guarded body handlers cleanup =>
    simp only [Shape.steps, Shape.parts, List.cons_append, List.filterMap_append,
      List.filterMap_cons, Step.part?, filterMap_visits, List.filterMap_flatMap,
      Handler.filterMap_steps]
  | defStruct ns name fields interfaces =>
    simp only [Shape.steps, Shape.parts, List.filterMap_flatMap, List.filterMap_cons, Step.part?,
      Lambda.filterMap_steps, List.map_eq_flatMap]
  | _ =>
    simp only [Shape.steps, Shape.parts, Shape.children, List.filterMap_append,
      List.filterMap_cons, List.filterMap_nil, Step.part?, filterMap_visits,
      Lambda.filterMap_steps, List.map_cons, List.map_nil]

theorem Shape.mem_parts_iff {scope : Scope} {shape : Shape ν} {place : Place} {node : ν} :
    (place, node) ∈ shape.parts ↔ ∃ inner, .visits place inner node ∈ shape.steps scope := by
  rw [← Shape.filterMap_steps scope, List.mem_filterMap]
  constructor
  · rintro ⟨step, member, found⟩
    cases step with
    | visits other inner child =>
      obtain ⟨rfl, rfl⟩ := Prod.mk.inj (Option.some.inj found)
      exact ⟨inner, member⟩
    | _ => contradiction
  · rintro ⟨inner, member⟩
    exact ⟨_, member, rfl⟩

/-- What the captures, parameters and frame of a function have to do with each other. -/
structure Lambda.Lawful (scope : Scope) (lambda : Lambda ν) : Prop where
  plain : ∀ param ∈ lambda.params, param.Plain
  frame : lambda.frame.params = lambda.params
  uses : lambda.uses = scope.locals.filter fun name =>
    !lambda.params.any fun param => param.name == name.name

structure Handler.Lawful (scope : Scope) (handler : Handler Node) : Prop where
  plain : handler.symbol.Plain
  scope : handler.scope = scope

/-- A binding carries the scope of its first value. -/
structure Binding.Lawful (binding : Binding Node) : Prop where
  plain : binding.symbol.Plain
  scope : binding.scope = binding.init.scope

/-- What the data of a node have to do with its scope and with each other. -/
def Shape.Lawful (core : String) (registry : Registry) (scope : Scope) : Shape Node → Prop
  | .localVar name shadow =>
    Resolve.shape core registry scope name = .ok (.localVar name shadow : Shape Node)
  | .globalVar home name metadata =>
    Resolve.shape core registry scope name = .ok (.globalVar home name metadata : Shape Node)
  | .letIn bindings _ => ∀ binding ∈ bindings, binding.Lawful
  | .loop frame bindings _ =>
    (∀ binding ∈ bindings, binding.Lawful) ∧ frame.params = bindings.map Binding.symbol
  | .fn lambda => lambda.Lawful scope
  | .recur frame args => scope.frame = some frame ∧ frame.params.length = args.length
  | .foreach value key _ _ => ∀ name ∈ value :: key.toList, name.Plain
  | .guarded _ handlers _ => ∀ handler ∈ handlers, handler.Lawful scope.returning
  | .defStruct home name fields interfaces =>
    (∀ field ∈ fields, field.Plain) ∧
    ∀ implementation ∈ interfaces, ∀ method ∈ implementation.methods,
      method.scope = scope.ofStruct home name fields ∧ method.lambda.Lawful method.scope
  | .define .. => scope.defAllowed = true
  | _ => True

/-- A symbol that is no name of the host is a local variable if it is local and no global
one unless it is not. -/
theorem Resolve.shape_cases {core : String} {registry : Registry} {scope : Scope}
    {symbol : Symbol} {shape : Shape ν}
    (resolved : Resolve.shape core registry scope symbol = .ok shape) :
    (∃ base, shape = .hostVar base) ∨ (∃ cls, shape = .hostClass cls) ∨
    (Resolve.isLocal scope symbol = true ∧ shape = .localVar symbol (scope.shadow? symbol)) ∨
    (Resolve.isLocal scope symbol = false ∧
      ∃ home metadata, shape = .globalVar home symbol metadata) := by
  unfold Resolve.shape at resolved
  split at resolved
  next found =>
    obtain rfl := Except.ok.inj resolved
    unfold Resolve.host? at found
    split at found <;> split at found <;> cases found
    · exact .inl ⟨_, rfl⟩
    · exact .inr (.inl ⟨_, rfl⟩)
  split at resolved
  next isLocal => exact .inr (.inr (.inl ⟨isLocal, (Except.ok.inj resolved).symm⟩))
  next notLocal =>
    split at resolved
    next cls _ => exact .inr (.inl ⟨cls, (Except.ok.inj resolved).symm⟩)
    split at resolved
    · contradiction
    next definition _ =>
      exact .inr (.inr (.inr ⟨Bool.not_eq_true _ ▸ notLocal, _, _, (Except.ok.inj resolved).symm⟩))
    · contradiction

/-- A resolved symbol has no parts, so nothing more is to be done for it. -/
theorem Resolve.shape_lawful {core : String} {registry : Registry} {scope : Scope}
    {symbol : Symbol} {shape : Shape Node}
    (resolved : Resolve.shape core registry scope symbol = .ok shape) :
    shape.Lawful core registry scope ∧ shape.steps scope = [] := by
  rcases Resolve.shape_cases resolved with
    ⟨_, rfl⟩ | ⟨_, rfl⟩ | ⟨_, rfl⟩ | ⟨_, _, _, rfl⟩
  · exact ⟨trivial, rfl⟩
  · exact ⟨trivial, rfl⟩
  · exact ⟨resolved, rfl⟩
  · exact ⟨resolved, rfl⟩

theorem visitAll_length {visit : Visit} {scope : Scope} {forms : List Form} {nodes : List Node}
    {s t : State} (run : Gives (visitAll visit scope forms) s nodes t) :
    nodes.length = forms.length := by
  induction forms generalizing s nodes with
  | nil =>
    obtain ⟨rfl, _⟩ := gives_pure.mp run
    rfl
  | cons form rest ih =>
    simp only [visitAll, gives_bind, gives_pure] at run
    obtain ⟨node, _, _, nodes, _, others, rfl, rfl⟩ := run
    rw [List.length_cons, List.length_cons, ih others]

section Runs

variable (H : State → State → Prop) (P : State → Node → State → Prop)

/-- The states before and after some steps. Between the steps there may be changes `H`
that the tree does not show; `P` relates the states around a part. -/
inductive Runs : State → List (Step Node) → State → Prop where
  | done (s : State) : Runs s [] s
  | unseen {s t u : State} {steps : List (Step Node)} (changed : H s t) (rest : Runs t steps u) :
      Runs s steps u
  | opens {s t : State} {params : List Symbol} {steps : List (Step Node)}
      (rest : Runs s.opened steps t) :
      Runs s (.opens { id := s.frames.length, params } :: steps) t
  | restarts {s t : State} {frame : Frame} {steps : List (Step Node)}
      (rest : Runs (s.restarted frame) steps t) : Runs s (.restarts frame :: steps) t
  | names {s t : State} {symbol : Symbol} {steps : List (Step Node)}
      (rest : Runs { s with names := (s.names.issue (.shadow symbol.base)).2 } steps t) :
      Runs s (.names symbol (NameSupply.numbered symbol.base (s.names.count + 1)) :: steps) t
  | resolves {s t : State} {ns base : String} {methods : List String} {steps : List (Step Node)}
      (declared : s.registry.interface? ns base = some methods) (rest : Runs s steps t) :
      Runs s (.resolves (platformName ns base) :: steps) t
  | visits {s t u : State} {place : Place} {scope : Scope} {node : Node}
      {steps : List (Step Node)} (placed : node.scope = scope) (visited : P s node t)
      (rest : Runs t steps u) : Runs s (.visits place scope node :: steps) u

end Runs

theorem Runs.append {H : State → State → Prop} {P : State → Node → State → Prop}
    {s t u : State} {first second : List (Step Node)} (runs : Runs H P s first t)
    (more : Runs H P t second u) : Runs H P s (first ++ second) u := by
  induction runs with
  | done => exact more
  | unseen changed _ ih => exact .unseen changed (ih more)
  | opens _ ih => exact .opens (ih more)
  | restarts _ ih => exact .restarts (ih more)
  | names _ ih => exact .names (ih more)
  | resolves declared _ ih => exact .resolves declared (ih more)
  | visits placed visited _ ih => exact .visits placed visited (ih more)

end LispFront
