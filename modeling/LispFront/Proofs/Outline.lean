import Mathlib.Data.List.Forall2
import LispFront.Proofs.Positions

/-! All nodes of a tree and the names that they bind. Two trees have the same outline if nodes of
the same kind, context and span stand at the same positions of both (`Node.SameOutline`). -/

namespace LispFront

variable {ν : Type}

/-- The names that a node binds for its parts. -/
def Shape.bound : Shape ν → List BoundName
  | .letIn bindings _ | .loop _ bindings _ => bindings.map Binding.bound
  | .fn lambda => lambda.params.map .written
  | .foreach value key _ _ => (value :: key.toList).map .written
  | .guarded _ handlers _ => handlers.map fun handler => .written handler.symbol
  | .defStruct _ _ fields interfaces =>
    fields.map .written ++ interfaces.flatMap fun implementation =>
      implementation.methods.flatMap fun method => method.lambda.params.map .written
  | _ => []

section Size

variable [SizeOf ν] {child : ν}

theorem Binding.sizeOf_init {bindings : List (Binding ν)}
    (member : child ∈ bindings.map Binding.init) : sizeOf child < sizeOf bindings := by
  obtain ⟨binding, listed, rfl⟩ := List.mem_map.mp member
  have inside : sizeOf binding.init < sizeOf binding := by
    rw [Binding.mk.sizeOf_spec]
    omega
  exact Nat.lt_trans inside (List.sizeOf_lt_of_mem listed)

theorem Handler.sizeOf_body {handlers : List (Handler ν)}
    (member : child ∈ handlers.map Handler.body) : sizeOf child < sizeOf handlers := by
  obtain ⟨handler, listed, rfl⟩ := List.mem_map.mp member
  have inside : sizeOf handler.body < sizeOf handler := by
    rw [Handler.mk.sizeOf_spec]
    omega
  exact Nat.lt_trans inside (List.sizeOf_lt_of_mem listed)

theorem Lambda.sizeOf_body (lambda : Lambda ν) : sizeOf lambda.body < sizeOf lambda := by
  rw [Lambda.mk.sizeOf_spec]
  omega

theorem Implementation.sizeOf_body {implementations : List (Implementation ν)}
    (member : child ∈ implementations.flatMap fun implementation =>
      implementation.methods.map fun method => method.lambda.body) :
    sizeOf child < sizeOf implementations := by
  obtain ⟨implementation, listed, member⟩ := List.mem_flatMap.mp member
  obtain ⟨method, own, rfl⟩ := List.mem_map.mp member
  have body := method.lambda.sizeOf_body
  have lambda : sizeOf method.lambda < sizeOf method := by
    rw [StructMethod.mk.sizeOf_spec]
    omega
  have methods : sizeOf implementation.methods < sizeOf implementation := by
    rw [Implementation.mk.sizeOf_spec]
    omega
  have := List.sizeOf_lt_of_mem own
  have := List.sizeOf_lt_of_mem listed
  omega

theorem Shape.sizeOf_child {shape : Shape ν} (member : child ∈ shape.children) :
    sizeOf child < sizeOf shape := by
  cases shape with
  | vector elements | recur _ elements =>
    have : sizeOf child < sizeOf elements := List.sizeOf_lt_of_mem member
    simp only [Shape.vector.sizeOf_spec, Shape.recur.sizeOf_spec]
    omega
  | map entries =>
    obtain ⟨⟨key, value⟩, listed, member⟩ := List.mem_flatMap.mp member
    have := List.sizeOf_lt_of_mem listed
    simp only [List.mem_cons, List.not_mem_nil, or_false] at member
    simp only [Prod.mk.sizeOf_spec, Shape.map.sizeOf_spec] at this ⊢
    rcases member with rfl | rfl <;> omega
  | call callee args | apply callee args | hostNew callee args | hostMethodCall callee _ _ args =>
    rcases List.mem_cons.mp member with rfl | listed
    · simp +arith
    · have := List.sizeOf_lt_of_mem listed
      simp only [Shape.call.sizeOf_spec, Shape.apply.sizeOf_spec, Shape.hostNew.sizeOf_spec,
        Shape.hostMethodCall.sizeOf_spec]
      omega
  | block stmts ret =>
    simp only [Shape.children, List.mem_append, List.mem_singleton] at member
    rw [Shape.block.sizeOf_spec]
    rcases member with listed | rfl
    · have := List.sizeOf_lt_of_mem listed
      omega
    · omega
  | letIn bindings body | loop _ bindings body =>
    simp only [Shape.children, List.mem_append, List.mem_singleton] at member
    simp only [Shape.letIn.sizeOf_spec, Shape.loop.sizeOf_spec]
    rcases member with listed | rfl
    · have := Binding.sizeOf_init listed
      omega
    · omega
  | fn lambda =>
    obtain rfl := List.mem_singleton.mp member
    have := lambda.sizeOf_body
    rw [Shape.fn.sizeOf_spec]
    omega
  | guarded body handlers cleanup =>
    simp only [Shape.children, List.mem_append, List.mem_cons, Option.mem_toList] at member
    rw [Shape.guarded.sizeOf_spec]
    rcases member with (rfl | listed) | rfl
    · omega
    · have := Handler.sizeOf_body listed
      omega
    · rw [Option.some.sizeOf_spec]
      omega
  | defStruct _ _ _ interfaces =>
    have := Implementation.sizeOf_body member
    rw [Shape.defStruct.sizeOf_spec]
    omega
  | branch first second third | hostArraySet first second third =>
    simp only [Shape.children, List.mem_cons, List.not_mem_nil, or_false] at member
    rcases member with rfl | rfl | rfl <;> simp +arith
  | foreach _ _ first second | define _ _ _ first second | assign first second
  | hostPropertySet first second | hostArrayGet first second | hostArrayUnset first second
  | hostArrayPush first second =>
    simp only [Shape.children, List.mem_cons, List.not_mem_nil, or_false] at member
    rcases member with rfl | rfl <;> simp +arith
  | throw part | hostPropertyAccess part =>
    obtain rfl := List.mem_singleton.mp member
    simp +arith
  | _ => contradiction

end Size

theorem Node.sizeOf_child {node child : Node} (member : child ∈ node.children) :
    sizeOf child < sizeOf node := by
  cases node with
  | mk scope span shape =>
    have : sizeOf child < sizeOf shape := Shape.sizeOf_child member
    rw [Node.mk.sizeOf_spec]
    omega

/-- The names bound in a tree, each as often as it is bound, in evaluation order. -/
def Node.bound (node : Node) : List BoundName :=
  node.shape.bound ++ node.children.attach.flatMap fun child => child.1.bound
termination_by sizeOf node
decreasing_by exact Node.sizeOf_child child.2

theorem Node.bound_eq (node : Node) :
    node.bound = node.shape.bound ++ node.children.flatMap Node.bound := by
  rw [Node.bound]
  simp [List.flatMap_subtype]

/-- The generated names of the bindings of a tree. -/
def Node.shadows (node : Node) : List Symbol := node.bound.filterMap BoundName.shadow

/-- Nodes of the same kind, context and span, with children of which the same holds. Names are
not compared. -/
inductive Node.SameOutline : Node → Node → Prop where
  | mk {first second : Node} (kind : first.kindName = second.kindName)
      (context : first.scope.context = second.scope.context) (span : first.span = second.span)
      (children : List.Forall₂ SameOutline first.children second.children) :
      SameOutline first second

namespace Node.SameOutline

variable {first second : Node}

theorem kind (same : first.SameOutline second) : first.kindName = second.kindName := by
  cases same
  assumption

theorem span (same : first.SameOutline second) : first.span = second.span := by
  cases same
  assumption

end Node.SameOutline

end LispFront
