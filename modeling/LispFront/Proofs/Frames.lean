import LispFront.Proofs.Coherence

/-! Each function and loop gets a frame of its own, and nothing but a `recur` makes a frame active.
`FrameEffect` says what became of the frames between two states. It composes along the steps of a
node, so it holds of whole trees (`analyze_frames`). -/

namespace LispFront

def State.isActiveAt (state : State) (id : Nat) : Prop := state.frames.getD id false = true

theorem State.getD_opened {s : State} {id : Nat} (old : id < s.frames.length) :
    s.opened.frames.getD id false = s.frames.getD id false := by
  simp only [State.opened, List.getD_eq_getElem?_getD, List.getElem?_append_left old]

/-- Frames handed out before keep their activity, apart from the one in reach. -/
structure FramesKept (reach : Option Frame) (s t : State) : Prop where
  grows : s.frames.length ≤ t.frames.length
  kept : ∀ id < s.frames.length, (∀ own, reach = some own → own.id ≠ id) →
    t.frames.getD id false = s.frames.getD id false

namespace FramesKept

variable {reach : Option Frame} {s t u : State}

theorem of_eq (same : t.frames = s.frames) : FramesKept reach s t where
  grows := Nat.le_of_eq (congrArg List.length same.symm)
  kept _ _ _ := by rw [same]

theorem trans (first : FramesKept reach s t) (second : FramesKept reach t u) :
    FramesKept reach s u where
  grows := Nat.le_trans first.grows second.grows
  kept id old other :=
    (second.kept id (Nat.lt_of_lt_of_le old first.grows) other).trans (first.kept id old other)

theorem of_change {settings : Settings} {write : Write} (change : Change settings s write t) :
    FramesKept reach s t := by
  cases change <;> exact .of_eq rfl

/-- A new frame is not among the old ones, so its activity does not matter to them. -/
theorem of_opened {params : List Symbol}
    (kept : FramesKept (some { id := s.frames.length, params }) s.opened t) :
    FramesKept reach s t where
  grows := by
    have grows := kept.grows
    simp only [State.opened, List.length_append, List.length_singleton] at grows
    omega
  kept id old _ := by
    refine (kept.kept id ?_ ?_).trans (State.getD_opened old)
    · simp only [State.opened, List.length_append]
      omega
    · rintro _ ⟨⟩
      exact Nat.ne_of_gt old

theorem restarted (frame : Frame) : FramesKept (some frame) s (s.restarted frame) where
  grows := by simp [State.restarted]
  kept id _ other := by
    simp only [State.restarted, List.getD_eq_getElem?_getD]
    rw [List.getElem?_set_ne (other frame rfl)]

/-- The host reaches frames only through analyses of its own. -/
theorem run_host {reenter : Form → AnalyzeM Node}
    (reenters : ∀ form s, FramesKept none s (reenter form s).2) (action : HostAction) (s : State) :
    FramesKept none s (action.run reenter s).2 := by
  induction action generalizing s with
  | done result => exact .of_eq rfl
  | drawName stem next ih =>
    exact trans (t := { s with names := (s.names.next stem).2 }) (.of_eq rfl) (ih _ _)
  | restartNames next ih => exact trans (t := { s with names := .restart }) (.of_eq rfl) (ih _)
  | changeRegistry change next ih =>
    exact trans (t := { s with registry := change s.registry }) (.of_eq rfl) (ih _ _)
  | analyze form next ih => exact (reenters form s).trans (ih _ _)

end FramesKept

theorem tracks_framesKept (analyzer : Analyzer) : Tracks analyzer FramesKept where
  refl := .of_eq rfl
  trans := .trans
  inner kept := ⟨kept.grows, fun id old _ => kept.kept id old nofun⟩
  names _ := .of_eq rfl
  opens := .of_opened
  restarts := .restarted _
  host reenters := .run_host reenters _ _
  change _ := .of_change
  undo _ _ kept := ⟨kept.grows, fun id old _ => kept.kept id old nofun⟩

/-- Between the states the frames `owned` were handed out and the frames `restarted`
became active. -/
structure FrameEffect (owned restarted : Frame → Prop) (s t : State) : Prop where
  grows : s.frames.length ≤ t.frames.length
  fresh : ∀ frame, owned frame → s.frames.length ≤ frame.id ∧ frame.id < t.frames.length
  unique : ∀ first second, owned first → owned second → first.id = second.id → first = second
  known : ∀ frame, restarted frame → frame.id < t.frames.length
  old : ∀ id < s.frames.length,
    (t.isActiveAt id ↔ s.isActiveAt id ∨ ∃ frame, restarted frame ∧ frame.id = id)
  active : ∀ own, owned own →
    (t.isActiveAt own.id ↔ ∃ frame, restarted frame ∧ frame.id = own.id)

namespace FrameEffect

variable {owned restarted moreOwned moreRestarted : Frame → Prop} {s t u : State}

theorem congr (effect : FrameEffect owned restarted s t)
    (sameOwned : ∀ frame, moreOwned frame ↔ owned frame)
    (sameRestarted : ∀ frame, moreRestarted frame ↔ restarted frame) :
    FrameEffect moreOwned moreRestarted s t := by
  obtain rfl : moreOwned = owned := funext fun frame => propext (sameOwned frame)
  obtain rfl : moreRestarted = restarted := funext fun frame => propext (sameRestarted frame)
  exact effect

theorem of_kept (kept : FramesKept none s t) :
    FrameEffect (fun _ => False) (fun _ => False) s t where
  grows := kept.grows
  fresh := nofun
  unique := nofun
  known := nofun
  old id old := by
    unfold State.isActiveAt
    rw [kept.kept id old nofun]
    simp
  active := nofun

theorem opens (params : List Symbol) :
    FrameEffect (· = { id := s.frames.length, params }) (fun _ => False) s s.opened where
  grows := by simp [State.opened]
  fresh := by
    rintro _ rfl
    simp [State.opened]
  unique := by
    rintro _ _ rfl rfl _
    rfl
  known := nofun
  old id old := by
    unfold State.isActiveAt
    rw [State.getD_opened old]
    simp
  active := by
    rintro _ rfl
    simp [State.isActiveAt, State.opened]

theorem restarts {frame : Frame} (valid : frame.id < s.frames.length) :
    FrameEffect (fun _ => False) (· = frame) s (s.restarted frame) where
  grows := by simp [State.restarted]
  fresh := nofun
  unique := nofun
  known := by
    rintro _ rfl
    simpa [State.restarted] using valid
  old id old := by
    simp only [State.isActiveAt, State.restarted, List.getD_eq_getElem?_getD, exists_eq_left]
    by_cases same : frame.id = id
    · subst same
      simp [valid]
    · simp [List.getElem?_set_ne same, same]
  active := nofun

/-- Effects compose. A frame of the second part is new to the first, which therefore
cannot have restarted it. -/
theorem trans (first : FrameEffect owned restarted s t)
    (second : FrameEffect moreOwned moreRestarted t u) :
    FrameEffect (fun frame => owned frame ∨ moreOwned frame)
      (fun frame => restarted frame ∨ moreRestarted frame) s u where
  grows := Nat.le_trans first.grows second.grows
  fresh := by
    rintro frame (own | own)
    · have fresh := first.fresh frame own
      exact ⟨fresh.1, Nat.lt_of_lt_of_le fresh.2 second.grows⟩
    · have fresh := second.fresh frame own
      exact ⟨Nat.le_trans first.grows fresh.1, fresh.2⟩
  unique := by
    rintro one other (here | later) (here' | later') same
    · exact first.unique one other here here' same
    · have := (first.fresh one here).2
      have := (second.fresh other later').1
      omega
    · have := (second.fresh one later).1
      have := (first.fresh other here').2
      omega
    · exact second.unique one other later later' same
  known := by
    rintro frame (here | later)
    · exact Nat.lt_of_lt_of_le (first.known frame here) second.grows
    · exact second.known frame later
  old id old := by
    rw [second.old id (Nat.lt_of_lt_of_le old first.grows), first.old id old, or_assoc,
      ← exists_or]
    simp only [or_and_right]
  active := by
    rintro own (here | later)
    · rw [second.old own.id (first.fresh own here).2, first.active own here, ← exists_or]
      simp only [or_and_right]
    · rw [second.active own later]
      have unreached : ¬ ∃ frame, restarted frame ∧ frame.id = own.id := by
        rintro ⟨frame, here, same⟩
        have := first.known frame here
        have := (second.fresh own later).1
        omega
      simp only [or_and_right, exists_or, unreached, false_or]

end FrameEffect

/-- The frames that a node owns, each with the body it covers: that of a function, a loop,
or the methods of a struct. -/
def Shape.bodies {ν : Type} : Shape ν → List (Frame × ν)
  | .loop frame _ body => [(frame, body)]
  | .fn lambda => [(lambda.frame, lambda.body)]
  | .defStruct _ _ _ interfaces =>
    interfaces.flatMap fun implementation =>
      implementation.methods.map fun method => (method.lambda.frame, method.lambda.body)
  | _ => []

/-- A function, method or loop of the tree has this frame. -/
def Node.Owns (root : Node) (frame : Frame) : Prop :=
  ∃ trail node, root.Leads trail node ∧ frame ∈ node.shape.bodies.map Prod.fst

/-- A `recur` of the tree carries this frame. -/
def Node.Restarts (root : Node) (frame : Frame) : Prop :=
  ∃ trail node args, root.Leads trail node ∧ node.shape = .recur frame args

def Step.Owns (frame : Frame) : Step Node → Prop
  | .opens own => frame = own
  | .visits _ _ node => node.Owns frame
  | _ => False

def Step.Restarts (frame : Frame) : Step Node → Prop
  | .restarts own => frame = own
  | .visits _ _ node => node.Restarts frame
  | _ => False

/-- Bindings neither open nor restart frames themselves. -/
theorem Binding.no_frame_mem_steps {scope : Scope} {earlier : List BoundName}
    {bindings : List (Binding Node)} {frame : Frame} :
    Step.opens frame ∉ Binding.steps scope earlier bindings ∧
    Step.restarts frame ∉ Binding.steps scope earlier bindings := by
  induction bindings generalizing scope earlier with
  | nil => simp [Binding.steps]
  | cons binding rest ih => simp [Binding.steps, ih]

theorem Shape.opens_mem_steps {scope : Scope} {shape : Shape Node} {frame : Frame} :
    .opens frame ∈ shape.steps scope ↔ frame ∈ shape.bodies.map Prod.fst := by
  cases shape <;>
    simp [Shape.steps, Shape.bodies, Binding.no_frame_mem_steps, Lambda.steps, Handler.steps,
      List.map_flatMap, eq_comm]

theorem Shape.restarts_mem_steps {scope : Scope} {shape : Shape Node} {frame : Frame} :
    .restarts frame ∈ shape.steps scope ↔ ∃ args, shape = .recur frame args := by
  cases shape <;>
    simp [Shape.steps, Binding.no_frame_mem_steps, Lambda.steps, Handler.steps, eq_comm]

theorem Node.owns_iff {node : Node} {frame : Frame} :
    node.Owns frame ↔ ∃ step ∈ node.shape.steps node.scope, step.Owns frame := by
  constructor
  · rintro ⟨trail, found, leads, own⟩
    cases leads with
    | here => exact ⟨_, Shape.opens_mem_steps.mpr own, rfl⟩
    | into part rest =>
      obtain ⟨inner, member⟩ := Shape.mem_parts_iff.mp part
      exact ⟨_, member, _, _, rest, own⟩
  · rintro ⟨step, member, own⟩
    cases step with
    | opens own' =>
      obtain rfl : frame = own' := own
      exact ⟨[], node, .here node, Shape.opens_mem_steps.mp member⟩
    | visits place inner child =>
      obtain ⟨trail, found, leads, own⟩ := own
      exact ⟨place :: trail, found, .into (Shape.mem_parts_iff.mpr ⟨inner, member⟩) leads, own⟩
    | _ => contradiction

theorem Node.restarts_iff {node : Node} {frame : Frame} :
    node.Restarts frame ↔ ∃ step ∈ node.shape.steps node.scope, step.Restarts frame := by
  constructor
  · rintro ⟨trail, found, args, leads, shape⟩
    cases leads with
    | here => exact ⟨_, Shape.restarts_mem_steps.mpr ⟨args, shape⟩, rfl⟩
    | into part rest =>
      obtain ⟨inner, member⟩ := Shape.mem_parts_iff.mp part
      exact ⟨_, member, _, _, args, rest, shape⟩
  · rintro ⟨step, member, restart⟩
    cases step with
    | restarts own =>
      obtain rfl : frame = own := restart
      obtain ⟨args, shape⟩ := Shape.restarts_mem_steps.mp member
      exact ⟨[], node, args, .here node, shape⟩
    | visits place inner child =>
      obtain ⟨trail, found, args, leads, shape⟩ := restart
      exact ⟨place :: trail, found, args, .into (Shape.mem_parts_iff.mpr ⟨inner, member⟩) leads,
        shape⟩
    | _ => contradiction

/-- Parts stand in frames that are known when they are visited: in `known` ones or in one
that an earlier step opened. So do restarts. -/
def Grounded : List Frame → List (Step Node) → Prop
  | _, [] => True
  | known, .opens frame :: rest => Grounded (frame :: known) rest
  | known, .restarts frame :: rest => frame ∈ known ∧ Grounded known rest
  | known, .names _ _ :: rest => Grounded known rest
  | known, .resolves _ :: rest => Grounded known rest
  | known, .visits _ scope _ :: rest =>
    (∀ frame, scope.frame = some frame → frame ∈ known) ∧ Grounded known rest

namespace Grounded

variable {known more : List Frame} {steps first second : List (Step Node)}

theorem mono (grounded : Grounded known steps) (subset : known ⊆ more) : Grounded more steps := by
  induction steps generalizing known more with
  | nil => trivial
  | cons step rest ih =>
    cases step with
    | opens frame => exact ih grounded (List.cons_subset_cons frame subset)
    | restarts frame => exact ⟨subset grounded.1, ih grounded.2 subset⟩
    | names symbol shadow => exact ih grounded subset
    | resolves interface => exact ih grounded subset
    | visits place scope node =>
      exact ⟨fun frame current => subset (grounded.1 frame current), ih grounded.2 subset⟩

theorem append (grounded : Grounded known first) (others : Grounded known second) :
    Grounded known (first ++ second) := by
  induction first generalizing known with
  | nil => exact others
  | cons step rest ih =>
    cases step with
    | opens frame => exact ih grounded (others.mono (List.subset_cons_self frame known))
    | restarts frame => exact ⟨grounded.1, ih grounded.2 others⟩
    | names symbol shadow => exact ih grounded others
    | resolves interface => exact ih grounded others
    | visits place scope node => exact ⟨grounded.1, ih grounded.2 others⟩

theorem visits {place : Place} {scope : Scope} {nodes : List Node}
    (current : ∀ frame, scope.frame = some frame → frame ∈ known) :
    Grounded known (nodes.map (.visits place scope)) := by
  induction nodes with
  | nil => trivial
  | cons node rest ih => exact ⟨current, ih⟩

theorem flatMap {α : Type} {f : α → List (Step Node)} {items : List α}
    (each : ∀ item, Grounded known (f item)) : Grounded known (items.flatMap f) := by
  induction items with
  | nil => trivial
  | cons item rest ih => exact (each item).append ih

theorem bindings {scope : Scope} {earlier : List BoundName} {bindings : List (Binding Node)} :
    Grounded known (Binding.steps scope earlier bindings) := by
  induction bindings generalizing scope earlier with
  | nil => trivial
  | cons binding rest ih => exact ⟨nofun, ih⟩

theorem lambda {scope : Scope} {fields : List Symbol} {lambda : Lambda Node} :
    Grounded known (lambda.steps scope fields) := by
  refine ⟨?_, trivial⟩
  rintro _ ⟨⟩
  exact List.mem_cons_self

end Grounded

/-- The frame of a node is the only one that its steps need to know. -/
theorem Shape.grounded {core : String} {registry : Registry} {scope : Scope}
    {shape : Shape Node} (lawful : shape.Lawful core registry scope) :
    Grounded scope.frame.toList (shape.steps scope) := by
  have own : ∀ frame, scope.frame = some frame → frame ∈ scope.frame.toList := by simp
  cases shape with
  | branch test yes no => exact ⟨nofun, own, own, trivial⟩
  | block stmts ret => exact Grounded.append (.visits nofun) ⟨own, trivial⟩
  | letIn bindings body =>
    refine Grounded.bindings.append ⟨?_, trivial⟩
    rw [Scope.foldl_extend_frame, Scope.returning_frame]
    exact own
  | loop frame bindings body =>
    change Grounded (frame :: scope.frame.toList) (Binding.steps scope.returning [] bindings ++ _)
    refine Grounded.bindings.append ⟨?_, trivial⟩
    rintro _ ⟨⟩
    exact List.mem_cons_self
  | fn lambda => exact .lambda
  | recur frame args =>
    refine ⟨?_, .visits nofun⟩
    exact own frame lawful.1
  | foreach value key coll body => exact ⟨nofun, nofun, trivial⟩
  | guarded body handlers cleanup =>
    refine ⟨nofun, Grounded.append ?_ (.visits nofun)⟩
    exact .flatMap fun handler => ⟨nofun, nofun, trivial⟩
  | define home name metadata metadataNode init => exact ⟨nofun, nofun, trivial⟩
  | defStruct home name fields interfaces =>
    exact .flatMap fun implementation => .flatMap fun method => .lambda
  | _ => exact .visits nofun

/-- The frame that a `recur` in this scope would restart has been handed out. -/
def Scope.FrameKnown (scope : Scope) (s : State) : Prop :=
  ∀ frame, scope.frame = some frame → frame.id < s.frames.length

def TreeFrames (s : State) (node : Node) (t : State) : Prop :=
  node.scope.FrameKnown s → FrameEffect node.Owns node.Restarts s t

theorem Runs.frameEffect {known : List Frame} {steps : List (Step Node)} {s t : State}
    (runs : Runs (FramesKept none) TreeFrames s steps t) (grounded : Grounded known steps)
    (valid : ∀ frame ∈ known, frame.id < s.frames.length) :
    FrameEffect (fun frame => ∃ step ∈ steps, step.Owns frame)
      (fun frame => ∃ step ∈ steps, step.Restarts frame) s t := by
  -- What is known grows with each frame opened, and all of it has been handed out.
  induction runs generalizing known with
  | done s => exact (FrameEffect.of_kept (.of_eq rfl)).congr (by simp) (by simp)
  | unseen changed _ ih =>
    have later := ih grounded fun frame member =>
      Nat.lt_of_lt_of_le (valid frame member) changed.grows
    exact ((FrameEffect.of_kept changed).trans later).congr (by simp) (by simp)
  | @opens s t params steps _ ih =>
    have first := FrameEffect.opens (s := s) params
    have validNow : ∀ frame ∈ { id := s.frames.length, params } :: known,
        frame.id < s.opened.frames.length :=
      List.forall_mem_cons.mpr ⟨(first.fresh _ rfl).2, fun frame member =>
        Nat.lt_of_lt_of_le (valid frame member) first.grows⟩
    exact (first.trans (ih grounded validNow)).congr (by simp [Step.Owns])
      (by simp [Step.Restarts])
  | restarts _ ih =>
    have first := FrameEffect.restarts (valid _ grounded.1)
    have later := ih grounded.2 fun frame member =>
      Nat.lt_of_lt_of_le (valid frame member) first.grows
    exact (first.trans later).congr (by simp [Step.Owns]) (by simp [Step.Restarts])
  | @names s _ symbol _ _ ih =>
    have drawn : FramesKept none s
        { s with names := (s.names.issue (.shadow symbol.base)).2 } := .of_eq rfl
    exact ((FrameEffect.of_kept drawn).trans (ih grounded valid)).congr (by simp [Step.Owns])
      (by simp [Step.Restarts])
  | resolves _ _ ih =>
    exact (ih grounded valid).congr (by simp [Step.Owns]) (by simp [Step.Restarts])
  | visits placed visited _ ih =>
    have first := visited fun frame current =>
      valid frame (grounded.1 frame (placed ▸ current))
    have later := ih grounded.2 fun frame member =>
      Nat.lt_of_lt_of_le (valid frame member) first.grows
    exact (first.trans later).congr (by simp [Step.Owns]) (by simp [Step.Restarts])

theorem builds_treeFrames (analyzer : Analyzer) : Builds analyzer FramesKept TreeFrames where
  tracks := tracks_framesKept analyzer
  node {scope span shape s t} lawful runs := by
    intro known
    have effect := runs.frameEffect (Shape.grounded lawful) fun frame member =>
      known frame (Option.mem_toList.mp member)
    exact effect.congr (fun _ => Node.owns_iff) (fun _ => Node.restarts_iff)
  after {node s t u} changed frames := by
    intro known
    have later := frames fun frame current => Nat.lt_of_lt_of_le (known frame current) changed.grows
    exact ((FrameEffect.of_kept changed).trans later).congr (by simp) (by simp)

theorem analyze_frames {analyzer : Analyzer} {form : Form} {scope : Scope} {s t : State}
    {root : Node} (run : Gives (analyzer.analyze form scope) s root t)
    (known : scope.FrameKnown s) : FrameEffect root.Owns root.Restarts s t := by
  have built := (builds_treeFrames analyzer).sound_analyze run
  exact built.holds (built.placed ▸ known)

end LispFront
