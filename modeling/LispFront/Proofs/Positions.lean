import LispFront.Node

/-! A position is told by the places one passes on the way to it: which names the node around it
binds there, and what a `recur` there would restart. Statements about all positions see how a node
came to stand where it is, which statements about all nodes would not. -/

namespace LispFront

variable {ν : Type}

/-- A bound name and the generated name it goes under. A name bound under its own
spelling has none. -/
structure BoundName where
  symbol : Symbol
  shadow : Option Symbol

namespace BoundName

def written (symbol : Symbol) : BoundName := ⟨symbol, none⟩

/-- The innermost of the bound names with this name. Inner ones come first. -/
def find? (name : Name) (names : List BoundName) : Option BoundName :=
  names.find? fun bound => bound.symbol.name = name

end BoundName

def Binding.bound (binding : Binding ν) : BoundName := ⟨binding.symbol, some binding.shadow⟩

/-- The last of several bindings is the innermost. -/
def Binding.allBound (bindings : List (Binding ν)) : List BoundName :=
  (bindings.map bound).reverse

/-- What a `recur` restarts. -/
inductive Role where
  /-- The same as one in place of the node around it. -/
  | tail
  /-- The function or loop whose body this is. -/
  | body (frame : Frame)
  /-- Nothing: it may not stand here. -/
  | inner

def Role.frame (outer : Option Frame) : Role → Option Frame
  | .tail => outer
  | .body frame => some frame
  | .inner => none

structure Place where
  role : Role
  binds : List BoundName := []

namespace Place

def inner : Place := { role := .inner }

def tail : Place := { role := .tail }

end Place

/-- First values see the bindings before their own. -/
def Binding.parts : List BoundName → List (Binding ν) → List (Place × ν)
  | _, [] => []
  | earlier, binding :: rest =>
    ({ role := .inner, binds := earlier }, binding.init) ::
      parts (binding.bound :: earlier) rest

/-- The body of a function. The fields of a struct are bound around its methods. -/
def Lambda.part (fields : List Symbol) (lambda : Lambda ν) : Place × ν :=
  ({ role := .body lambda.frame,
     binds := lambda.params.map .written ++ fields.map .written }, lambda.body)

def Handler.parts (handler : Handler ν) : List (Place × ν) :=
  [(.inner, handler.exception),
    ({ role := .inner, binds := [.written handler.symbol] }, handler.body)]

/-- The nodes directly inside, each with its place. Only the last form of a block, the
branches of a choice and the body of a `let` take over the value of the node. -/
def Shape.parts : Shape ν → List (Place × ν)
  | .branch test yes no => [(.inner, test), (.tail, yes), (.tail, no)]
  | .block stmts ret => stmts.map (Prod.mk .inner) ++ [(.tail, ret)]
  | .letIn bindings body =>
    Binding.parts [] bindings ++ [({ role := .tail, binds := Binding.allBound bindings }, body)]
  | .loop frame bindings body =>
    Binding.parts [] bindings ++
      [({ role := .body frame, binds := Binding.allBound bindings }, body)]
  | .fn lambda => [lambda.part []]
  | .foreach value key coll body =>
    [(.inner, coll),
      ({ role := .inner, binds := (value :: key.toList).map .written }, body)]
  | .guarded body handlers cleanup =>
    (.inner, body) :: handlers.flatMap Handler.parts ++ cleanup.toList.map (Prod.mk .inner)
  | .defStruct _ _ fields interfaces =>
    interfaces.flatMap fun implementation =>
      implementation.methods.map fun method => method.lambda.part fields
  | shape => shape.children.map (Prod.mk .inner)

theorem Binding.map_parts (earlier : List BoundName) (bindings : List (Binding ν)) :
    (Binding.parts earlier bindings).map Prod.snd = bindings.map Binding.init := by
  induction bindings generalizing earlier with
  | nil => rfl
  | cons binding rest ih => simp only [Binding.parts, List.map_cons, ih]

theorem Handler.bodies_sublist (handlers : List (Handler ν)) :
    (handlers.map Handler.body).Sublist ((handlers.flatMap Handler.parts).map Prod.snd) := by
  induction handlers with
  | nil => exact .slnil
  | cons handler rest ih => exact .cons _ (.cons_cons _ ih)

/-- All children are among the parts, in the same order. What comes in addition is
the class of each handler. -/
theorem Shape.children_sublist_parts (shape : Shape ν) :
    shape.children.Sublist (shape.parts.map Prod.snd) := by
  cases shape with
  | guarded body handlers cleanup =>
    simp only [Shape.children, Shape.parts, List.map_cons, List.map_append, List.map_map]
    refine .cons_cons _ (.append (Handler.bodies_sublist handlers) ?_)
    simp [Function.comp_def]
  | letIn bindings body => simp [Shape.children, Shape.parts, Binding.map_parts]
  | loop frame bindings body => simp [Shape.children, Shape.parts, Binding.map_parts]
  | defStruct ns name fields interfaces =>
    simp [Shape.children, Shape.parts, Lambda.part, List.map_flatMap, Function.comp_def]
  | _ => simp [Shape.children, Shape.parts, Lambda.part, Function.comp_def]

/-- From a node one comes to another through these places, the outermost first. -/
inductive Node.Leads : Node → List Place → Node → Prop where
  | here (node : Node) : Leads node [] node
  | into {node child found : Node} {place : Place} {trail : List Place}
      (part : (place, child) ∈ node.shape.parts) (rest : Leads child trail found) :
      Leads node (place :: trail) found

theorem Node.Leads.append {root node found : Node} {trail more : List Place}
    (leads : root.Leads trail node) (onward : node.Leads more found) :
    root.Leads (trail ++ more) found := by
  induction leads with
  | here => exact onward
  | into part _ ih => exact .into part (ih onward)

/-- The names bound on the way, inner ones first. -/
def enclosing : List Place → List BoundName
  | [] => []
  | place :: trail => enclosing trail ++ place.binds

/-- The frame at the end of the way. -/
def frameAt (outer : Option Frame) : List Place → Option Frame
  | [] => outer
  | place :: trail => frameAt (place.role.frame outer) trail

/-- A frame at the end of the way was there at its start, or is that of a body on the
way; behind that body there are tail positions only. -/
theorem frameAt_eq_some {outer : Option Frame} {frame : Frame} {trail : List Place}
    (found : frameAt outer trail = some frame) :
    (outer = some frame ∧ ∀ place ∈ trail, place.role = .tail) ∨
    ∃ before binds behind, trail = before ++ { role := .body frame, binds } :: behind ∧
      ∀ place ∈ behind, place.role = .tail := by
  induction trail generalizing outer with
  | nil => exact .inl ⟨found, by simp⟩
  | cons place trail ih =>
    rcases ih found with ⟨start, tails⟩ | ⟨before, binds, behind, rfl, tails⟩
    · obtain ⟨role, binds⟩ := place
      cases role with
      | tail => exact .inl ⟨start, List.forall_mem_cons.mpr ⟨rfl, tails⟩⟩
      | body own =>
        obtain rfl : own = frame := Option.some.inj start
        exact .inr ⟨[], binds, trail, rfl, tails⟩
      | inner => contradiction
    · exact .inr ⟨place :: before, binds, behind, rfl, tails⟩

end LispFront
