import LispFront.Proofs.Frames
import LispFront.Proofs.LexicalScope

/-! A `recur` stands where its value would be the value of the function or loop it restarts
(`recur_owner`), and passes it the right number of values. Which frames are active after an analysis
is just a matter of which `recur`s the tree has (`isActive_iff_restarts`). -/

namespace LispFront

/-- A way through a place passes the node around it and the part there. -/
theorem Node.Leads.split {root found : Node} {before behind : List Place} {place : Place}
    (leads : root.Leads (before ++ place :: behind) found) :
    ∃ owner body, root.Leads before owner ∧ (place, body) ∈ owner.shape.parts ∧
      body.Leads behind found := by
  induction before generalizing root with
  | nil =>
    cases leads with
    | into part rest => exact ⟨root, _, .here root, part, rest⟩
  | cons first before ih =>
    cases leads with
    | into part rest =>
      obtain ⟨owner, body, above, inside, below⟩ := ih rest
      exact ⟨owner, body, .into part above, inside, below⟩

theorem Binding.role_of_mem_parts {earlier : List BoundName} {bindings : List (Binding Node)}
    {place : Place} {node : Node} (part : (place, node) ∈ Binding.parts earlier bindings) :
    place.role = .inner := by
  induction bindings generalizing earlier with
  | nil => contradiction
  | cons binding rest ih =>
    rcases List.mem_cons.mp part with first | later
    · rw [(Prod.mk.inj first).1]
    · exact ih later

/-- A part that stands as the body of a frame is the body which that frame covers. -/
theorem Shape.mem_bodies {shape : Shape Node} {frame : Frame} {place : Place} {body : Node}
    (part : (place, body) ∈ shape.parts) (role : place.role = .body frame) :
    (frame, body) ∈ shape.bodies := by
  cases shape with
  | branch test yes no =>
    simp only [Shape.parts, List.mem_cons, List.not_mem_nil, or_false, Prod.mk.injEq] at part
    rcases part with ⟨rfl, _⟩ | ⟨rfl, _⟩ | ⟨rfl, _⟩ <;> contradiction
  | block stmts ret =>
    simp only [Shape.parts, List.mem_append, List.mem_map, List.mem_singleton,
      Prod.mk.injEq] at part
    rcases part with ⟨_, _, rfl, _⟩ | ⟨rfl, _⟩ <;> contradiction
  | letIn bindings inside =>
    simp only [Shape.parts, List.mem_append, List.mem_singleton, Prod.mk.injEq] at part
    rcases part with early | ⟨rfl, _⟩
    · rw [Binding.role_of_mem_parts early] at role
      contradiction
    · contradiction
  | loop own bindings inside =>
    simp only [Shape.parts, List.mem_append, List.mem_singleton, Prod.mk.injEq] at part
    rcases part with early | ⟨rfl, rfl⟩
    · rw [Binding.role_of_mem_parts early] at role
      contradiction
    · obtain rfl := Role.body.inj role
      exact List.mem_cons_self
  | fn lambda =>
    obtain ⟨rfl, rfl⟩ := Prod.mk.inj (List.mem_singleton.mp part)
    obtain rfl := Role.body.inj role
    exact List.mem_cons_self
  | foreach value key coll inside =>
    simp only [Shape.parts, List.mem_cons, List.not_mem_nil, or_false, Prod.mk.injEq] at part
    rcases part with ⟨rfl, _⟩ | ⟨rfl, _⟩ <;> contradiction
  | guarded inside handlers cleanup =>
    simp only [Shape.parts, Handler.parts, List.cons_append, List.mem_cons, List.mem_append,
      List.mem_flatMap, List.not_mem_nil, or_false, List.mem_map, Prod.mk.injEq] at part
    rcases part with ⟨rfl, _⟩ | ⟨_, _, ⟨rfl, _⟩ | ⟨rfl, _⟩⟩ | ⟨_, _, rfl, _⟩ <;> contradiction
  | defStruct home name fields interfaces =>
    simp only [Shape.parts, List.mem_flatMap, List.mem_map] at part
    obtain ⟨implementation, listed, method, own, same⟩ := part
    obtain ⟨rfl, rfl⟩ := Prod.mk.inj same
    obtain rfl := Role.body.inj role
    exact List.mem_flatMap.mpr ⟨implementation, listed, List.mem_map.mpr ⟨method, own, rfl⟩⟩
  | _ =>
    obtain ⟨_, _, same⟩ := List.mem_map.mp part
    obtain ⟨rfl, _⟩ := Prod.mk.inj same
    contradiction

/-- The frame of a `recur` is the one in force where it stands, and its values match the
parameters of that frame. -/
theorem Node.Fits.recur {core : String} {node : Node} {frame : Frame} {args : List Node}
    (fits : node.Fits core) (shape : node.shape = .recur frame args) :
    node.scope.frame = some frame ∧ args.length = frame.params.length := by
  obtain ⟨registry, lawful⟩ := fits.lawful
  rw [shape] at lawful
  exact ⟨lawful.1, lawful.2.symm⟩

section Top

variable {analyzer : Analyzer} {form : Form} {s t : State} {root node : Node}
variable {trail : List Place} {frame : Frame} {args : List Node}
variable (run : Gives (analyzer.analyzeTopLevel form) s root t)

include run

theorem recur_owner (leads : root.Leads trail node) (shape : node.shape = .recur frame args) :
    ∃ before place owner body behind, trail = before ++ place :: behind ∧
      root.Leads before owner ∧ (place, body) ∈ owner.shape.parts ∧
      (frame, body) ∈ owner.shape.bodies ∧ body.Leads behind node ∧
      ∀ place ∈ behind, place.role = .tail := by
  obtain ⟨seen, coherent⟩ := analyzeTopLevel_sees run leads
  have inForce : frameAt none trail = some frame :=
    seen.frame.symm.trans (coherent.fits.recur shape).1
  -- No frame is in force at top level, so this one comes from a body on the way.
  rcases frameAt_eq_some inForce with ⟨impossible, _⟩ | ⟨before, binds, behind, rfl, tails⟩
  · contradiction
  · obtain ⟨owner, body, above, part, below⟩ := leads.split
    have covered := Shape.mem_bodies part rfl
    exact ⟨before, _, owner, body, behind, rfl, above, part, covered, below, tails⟩

theorem owns_of_restarts (restarts : root.Restarts frame) : root.Owns frame := by
  obtain ⟨trail, node, args, leads, shape⟩ := restarts
  obtain ⟨before, _, owner, body, _, _, above, _, covered, _⟩ := recur_owner run leads shape
  exact ⟨before, owner, above, List.mem_map.mpr ⟨_, covered, rfl⟩⟩

/-- The frames that are active afterwards are those that a `recur` carries. Frame numbers
do not repeat within a tree, so it is the same frame and not only the same number. -/
theorem isActive_iff_restarts (owns : root.Owns frame) :
    t.isActive frame = true ↔ root.Restarts frame := by
  have frames := analyze_frames run nofun
  refine (frames.active frame owns).trans ⟨?_, fun restarts => ⟨frame, restarts, rfl⟩⟩
  rintro ⟨other, restarts, same⟩
  obtain rfl := frames.unique other frame (owns_of_restarts run restarts) owns same
  exact restarts

end Top

/-- Each `recur` of a tree carries the frame of a function, method or loop around it, from
whose body one comes to it through tail positions only, and has as many values as that
frame has parameters. A frame of the tree is active just when some `recur` carries it. -/
theorem recur_restarts_owner {analyzer : Analyzer} {form : Form} {s t : State} {root : Node}
    (run : Gives (analyzer.analyzeTopLevel form) s root t) :
    (∀ trail node frame args, root.Leads trail node → node.shape = .recur frame args →
      args.length = frame.params.length ∧
      ∃ before place owner body behind, trail = before ++ place :: behind ∧
        root.Leads before owner ∧ (place, body) ∈ owner.shape.parts ∧
        (frame, body) ∈ owner.shape.bodies ∧ body.Leads behind node ∧
        ∀ place ∈ behind, place.role = .tail) ∧
    (∀ frame, root.Owns frame → (t.isActive frame = true ↔ root.Restarts frame)) := by
  refine ⟨fun trail node frame args leads shape => ⟨?_, recur_owner run leads shape⟩,
    fun frame owns => isActive_iff_restarts run owns⟩
  exact ((analyzeTopLevel_sees run leads).2.fits.recur shape).2

/-- The form `(fn [x y] (if x (let [z y] (recur z x)) (loop [i x] i)))`. -/
def Form.nestedRecur : Form :=
  .list [.plainSymbol "fn", .vector [.plainSymbol "x", .plainSymbol "y"] none [],
    .list [.plainSymbol "if", .plainSymbol "x",
      .list [.plainSymbol "let", .vector [.plainSymbol "z", .plainSymbol "y"] none [],
        .list [.plainSymbol "recur", .plainSymbol "z", .plainSymbol "x"] none []] none [],
      .list [.plainSymbol "loop", .vector [.plainSymbol "i", .plainSymbol "x"] none [],
        .plainSymbol "i"] none []] none []] none []

set_option maxRecDepth 10000 in
/-- The function is restarted and the loop inside it is not. -/
theorem recur_restarts_owner_nested : ∃ root t,
    Gives (({} : Analyzer).analyzeTopLevel .nestedRecur) { registry := .ofSettings {} } root t ∧
    root.Restarts { id := 0, params := [.plain "x", .plain "y"] } ∧
    ¬ root.Restarts { id := 1, params := [.plain "i"] } := by
  obtain ⟨root, t, run, ownsFn, ownsLoop, active, inactive⟩ : ∃ root t,
      Gives (({} : Analyzer).analyzeTopLevel .nestedRecur) { registry := .ofSettings {} } root t ∧
      root.Owns { id := 0, params := [.plain "x", .plain "y"] } ∧
      root.Owns { id := 1, params := [.plain "i"] } ∧
      t.isActive { id := 0, params := [.plain "x", .plain "y"] } = true ∧
      t.isActive { id := 1, params := [.plain "i"] } = false :=
    ⟨_, _, rfl, ⟨_, _, .here _, .head _⟩, ⟨_, _, .into (.head _) (.into (.head _)
      (.into (.tail _ (.tail _ (.head _))) (.here _))), .head _⟩, rfl, rfl⟩
  have activity := (recur_restarts_owner run).2
  refine ⟨root, t, run, (activity _ ownsFn).mp active, fun restarts => ?_⟩
  exact Bool.false_ne_true (inactive.symm.trans ((activity _ ownsLoop).mpr restarts))

end LispFront
