import LispFront.Proofs.Blame
import LispFront.Proofs.Origins
import LispFront.Proofs.Steps

/-! Every rule gives its node the span of the form that it is the rule of, and reports its faults at
that form or at one inside of it. If what is visited on the way does the same (`Visit.Traces`), then
the whole tree has spans of the form at the root only, and so has an error
(`Analyzer.traces_descend`). -/

namespace LispFront

/-- The spans that a shape holds in addition to those of the nodes inside. -/
def Shape.marks {ν : Type} : Shape ν → List (Option Span)
  | .letIn bindings _ | .loop _ bindings _ => bindings.map Binding.span
  | .guarded _ handlers _ => handlers.map Handler.span
  | .defStruct _ _ _ interfaces =>
    interfaces.flatMap fun implementation => implementation.methods.map StructMethod.span
  | _ => []

namespace Node

def marks (node : Node) : List (Option Span) := node.span :: node.shape.marks

/-- All spans in the tree are spans of forms in the root, as far as they are there. -/
def Traced (root : Form) (node : Node) : Prop :=
  ∀ trail found, node.Leads trail found → ∀ span ∈ found.marks, root.Allows span

/-- The node stands for a form with this span. -/
structure Placed (root : Form) (span : Option Span) (node : Node) : Prop where
  span : node.span = span
  traced : node.Traced root

variable {root : Form} {scope : Scope} {span : Option Span} {shape : Shape Node}

theorem placed_mk (own : root.Allows span) (marks : ∀ mark ∈ shape.marks, root.Allows mark)
    (parts : ∀ part ∈ shape.parts, part.2.Traced root) :
    (Node.mk scope span shape).Placed root span := by
  refine ⟨rfl, ?_⟩
  intro trail found leads
  cases leads with
  | here => exact List.forall_mem_cons.mpr ⟨own, marks⟩
  | into part rest => exact parts _ part _ _ rest

/-- A shape that holds no spans but those of the nodes inside. -/
theorem placed_bare (own : root.Allows span) (marks : shape.marks = [])
    (parts : ∀ part ∈ shape.parts, part.2.Traced root) :
    (Node.mk scope span shape).Placed root span := by
  apply placed_mk own
  · simp [marks]
  · exact parts

theorem placed_leaf (own : root.Allows span) (marks : shape.marks = []) (parts : shape.parts = []) :
    (Node.mk scope span shape).Placed root span :=
  placed_bare own marks (by simp [parts])

end Node

/-- Forms that arise are given nodes with their spans. -/
def Visit.Traces (root : Form) (core : String) (visit : Visit) : Prop :=
  ∀ form scope, root.Arises core form →
    Ends root.Blames (Node.Placed root form.span) (visit form scope)

variable {root : Form} {core : String} {span : Option Span} {scope : Scope}

theorem ends_analyzeSymbol {settings : Settings} {symbol : Symbol}
    (marks : root.Marks symbol.span) :
    Ends root.Blames (Node.Placed root symbol.span) (analyzeSymbol settings symbol scope) := by
  refine Ends.registry.bind fun registry _ => ?_
  have reads : Reads root.Blames (fun shape : Shape Node => shape.marks = [] ∧ shape.parts = [])
      (Resolve.shape settings.coreNamespace registry scope symbol) := by
    refine (Resolve.reads_shape marks).given fun shape resolved _ => ?_
    rcases Resolve.shape_cases resolved with
      ⟨_, rfl⟩ | ⟨_, rfl⟩ | ⟨_, rfl⟩ | ⟨_, _, _, rfl⟩ <;> exact ⟨rfl, rfl⟩
  refine (Ends.ofExcept reads).bind fun shape bare => .pure ?_
  exact Node.placed_leaf marks.allows bare.1 bare.2

section Sequences

variable {visit : Visit} {forms : List Form} (traces : visit.Traces root core)

include traces

theorem ends_visit {form : Form} (arises : root.Arises core form) :
    Ends root.Blames (Node.Traced root) (visit form scope) :=
  (traces form scope arises).mono fun _ placed => placed.traced

theorem ends_visitAll (arise : ∀ form ∈ forms, root.Arises core form) :
    Ends root.Blames (fun nodes => ∀ node ∈ nodes, node.Traced root)
      (visitAll visit scope forms) := by
  induction forms with
  | nil => exact .pure (List.forall_mem_nil _)
  | cons form rest ih =>
    obtain ⟨own, others⟩ := List.forall_mem_cons.mp arise
    refine (ends_visit traces own).bind fun node first => ?_
    exact (ih others).bind fun nodes more => .pure (List.forall_mem_cons.mpr ⟨first, more⟩)

theorem ends_visitEntries {entries : List (Form × Form)}
    (keys : ∀ entry ∈ entries, root.Arises core entry.1)
    (values : ∀ entry ∈ entries, root.Arises core entry.2) :
    Ends root.Blames (fun nodes => ∀ entry ∈ nodes, entry.1.Traced root ∧ entry.2.Traced root)
      (visitEntries visit scope entries) := by
  induction entries with
  | nil => exact .pure (List.forall_mem_nil _)
  | cons entry rest ih =>
    obtain ⟨key, laterKeys⟩ := List.forall_mem_cons.mp keys
    obtain ⟨value, laterValues⟩ := List.forall_mem_cons.mp values
    refine (ends_visit traces key).bind fun first keyTraced => ?_
    refine (ends_visit traces value).bind fun second valueTraced => ?_
    refine (ih laterKeys laterValues).bind fun nodes more => .pure ?_
    exact List.forall_mem_cons.mpr ⟨⟨keyTraced, valueTraced⟩, more⟩

theorem ends_analyzeVector (allows : root.Allows span)
    (arise : ∀ form ∈ forms, root.Arises core form) :
    Ends root.Blames (Node.Placed root span) (analyzeVector visit forms span scope) := by
  refine (ends_visitAll traces arise).bind fun nodes traced => .pure ?_
  apply Node.placed_bare allows rfl
  simpa [Shape.parts, Shape.children] using traced

theorem ends_analyzeMap {entries : Entries} (allows : root.Allows span)
    (keys : ∀ entry ∈ entries, root.Arises core entry.1)
    (values : ∀ entry ∈ entries, root.Arises core entry.2) :
    Ends root.Blames (Node.Placed root span) (analyzeMap visit entries span scope) := by
  refine (ends_visitEntries traces keys values).bind fun nodes traced => .pure ?_
  apply Node.placed_bare allows rfl
  intro part member
  simp only [Shape.parts, Shape.children, List.mem_map, List.mem_flatMap, List.mem_cons,
    List.not_mem_nil, or_false] at member
  obtain ⟨node, ⟨entry, listed, rfl | rfl⟩, rfl⟩ := member
  · exact (traced entry listed).1
  · exact (traced entry listed).2

theorem ends_analyzeBody (allows : root.Allows span)
    (arise : ∀ form ∈ forms, root.Arises core form) :
    Ends root.Blames (Node.Placed root span) (analyzeBody visit forms span scope) := by
  have statements : ∀ form ∈ forms.dropLast, root.Arises core form := fun form member =>
    arise form ((List.dropLast_sublist forms).mem member)
  have last : root.Arises core (forms.getLastD .nil) := by
    cases forms with
    | nil => exact .scalar rfl
    | cons form rest =>
      rw [List.getLastD_cons]
      exact arise _ List.getLastD_mem_cons
  refine (ends_visitAll traces statements).bind fun stmts traced => ?_
  refine (ends_visit traces last).bind fun ret retTraced => .pure ?_
  apply Node.placed_bare allows rfl
  simpa [Shape.parts, or_imp, forall_and] using ⟨traced, retTraced⟩

theorem ends_analyzeChoice {test yes no : Form} (allows : root.Allows span)
    (testArises : root.Arises core test) (yesArises : root.Arises core yes)
    (noArises : root.Arises core no) :
    Ends root.Blames (Node.Placed root span) (analyzeChoice visit test yes no span scope) := by
  refine (ends_visit traces testArises).bind fun test testTraced => ?_
  refine (ends_visit traces yesArises).bind fun yes yesTraced => ?_
  refine (ends_visit traces noArises).bind fun no noTraced => .pure ?_
  apply Node.placed_bare allows rfl
  simpa [Shape.parts] using ⟨testTraced, yesTraced, noTraced⟩

theorem ends_visitBoth {first second : Form} (firstArises : root.Arises core first)
    (secondArises : root.Arises core second) :
    Ends root.Blames (fun nodes => nodes.1.Traced root ∧ nodes.2.Traced root)
      (visitBoth visit first second scope) := by
  refine (ends_visit traces firstArises).bind fun first traced => ?_
  exact (ends_visit traces secondArises).bind fun second later => .pure ⟨traced, later⟩

/-- The bindings and where they are written. -/
theorem ends_bindAll {flat : List (Symbol × Form)} (arise : root.Flat core flat) :
    Ends root.Blames
      (fun bound => ∀ binding ∈ bound.1, root.Allows binding.span ∧ binding.init.Traced root)
      (Binder.bindAll visit flat scope) := by
  induction flat generalizing scope with
  | nil => exact .pure (List.forall_mem_nil _)
  | cons pair rest ih =>
    obtain ⟨⟨allows, value⟩, others⟩ := List.forall_mem_cons.mp arise
    have drawn : Ends root.Blames (fun _ => True)
        (AnalyzeM.ofNames (NameSupply.draw (.shadow pair.1.base))) := fun _ => trivial
    refine drawn.bind fun shadow _ => (ends_visit traces value).bind fun init traced => ?_
    refine (ih others).bind fun bound more => .pure ?_
    exact List.forall_mem_cons.mpr ⟨⟨allows, traced⟩, more⟩

end Sequences

/-- The parts of a `let` or a `loop`. -/
theorem traced_of_bindings {bindings : List (Binding Node)} {body : Node} {place : Place}
    (traced : ∀ binding ∈ bindings, root.Allows binding.span ∧ binding.init.Traced root)
    (bodyTraced : body.Traced root) :
    ∀ part ∈ Binding.parts [] bindings ++ [(place, body)], part.2.Traced root := by
  refine List.forall_mem_append.mpr ⟨?_, List.forall_mem_singleton.mpr bodyTraced⟩
  intro part member
  have listed := List.mem_map_of_mem (f := Prod.snd) member
  rw [Binding.map_parts] at listed
  obtain ⟨binding, own, same⟩ := List.mem_map.mp listed
  rw [← same]
  exact (traced binding own).2

section Lists

variable {settings : Settings} {visit : Visit} {args : List Form}
variable (traces : visit.Traces root settings.coreNamespace) (marks : root.Marks span)

include traces marks

theorem ends_analyzeLet {reads : List (Form × Form) × List Form → Prop}
    (header : Reads root.Blames reads (Binder.header .letIn args span))
    (pairs : ∀ read, reads read → root.Pairs settings.coreNamespace read.1)
    (body : ∀ read, reads read → (∀ pair ∈ read.1, pair.1.isScalar = false) →
      ∀ form ∈ read.2, root.Arises settings.coreNamespace form) :
    Ends root.Blames (Node.Placed root span) (analyzeLet settings visit args span scope) := by
  refine (Ends.ofExcept header).bind fun read given => ?_
  have lowered := (Pattern.ends_lowerPairs (pairs read given)).ofNames
  refine lowered.bind fun flat composite => ?_
  refine (ends_bindAll traces composite.2).bind fun bound traced => ?_
  have bodyArises := body read given composite.1
  refine (ends_analyzeBody traces marks.allows bodyArises).bind fun node placed => .pure ?_
  apply Node.placed_mk marks.allows
  · simpa [Shape.marks] using fun binding member => (traced binding member).1
  · exact traced_of_bindings traced placed.traced

theorem ends_analyzeLoop {reads : List (Form × Form) × List Form → Prop}
    (header : Reads root.Blames reads (Binder.header .loop args span))
    (plain : ∀ read, reads read → root.Flat settings.coreNamespace (Binder.simplePairs read.1))
    (body : ∀ read, reads read → ∀ form ∈ read.2, root.Arises settings.coreNamespace form)
    (lowered : ∀ read, reads read → (read.1.all fun pair => Pattern.isSimple pair.1) = false →
      Ends root.Blames (fun form => form.span = span ∧ root.Arises settings.coreNamespace form)
        (Pattern.lowerLoop read.1 read.2 span)) :
    Ends root.Blames (Node.Placed root span) (analyzeLoop visit args span scope) := by
  refine (Ends.ofExcept header).bind fun read given => ?_
  dsimp only
  split
  · refine Ends.newFrame.bind fun frame _ => ?_
    refine (ends_bindAll traces (plain read given)).bind fun bound traced => ?_
    refine (ends_analyzeBody traces marks.allows (body read given)).bind fun node placed => ?_
    refine .pure (Node.placed_mk marks.allows ?_ ?_)
    · simpa [Shape.marks] using fun binding member => (traced binding member).1
    · exact traced_of_bindings traced placed.traced
  next patterns =>
    have rounds := lowered read given (Bool.eq_false_iff.mpr patterns)
    refine rounds.ofNames.bind fun form arises => ?_
    rw [← arises.1]
    exact traces form scope arises.2

omit traces marks in
theorem flat_simplePairs {pairs : List (Form × Form)}
    (given : ∀ pair ∈ pairs, ∀ symbol : Symbol, pair.1 = symbol.form →
      root.Allows symbol.span ∧ root.Arises core pair.2) :
    root.Flat core (Binder.simplePairs pairs) := by
  intro pair member
  obtain ⟨⟨pattern, init⟩, listed, found⟩ := List.mem_filterMap.mp member
  obtain ⟨symbol, plain, rfl⟩ := Option.map_eq_some_iff.mp found
  exact given _ listed symbol (Form.plainSymbol?_eq_some plain)

variable (inside : ∀ arg ∈ args, arg.Inside root)

include inside

omit traces marks in
theorem arise_args : ∀ arg ∈ args, root.Arises core arg := fun arg member =>
  .inside (inside arg member)

theorem ends_writtenLet :
    Ends root.Blames (Node.Placed root span) (analyzeLet settings visit args span scope) := by
  refine ends_analyzeLet traces marks (Binder.reads_header marks inside) ?_ ?_
  · exact fun read given => .of_inside given.1
  · exact fun read given _ form member => .inside (given.2 form member)

theorem ends_writtenLoop :
    Ends root.Blames (Node.Placed root span) (analyzeLoop visit args span scope) := by
  refine ends_analyzeLoop traces marks (Binder.reads_header marks inside) ?_ ?_ ?_
  · intro read given
    refine flat_simplePairs fun pair member symbol same => ?_
    obtain ⟨pattern, init⟩ := given.1 pair member
    rw [same] at pattern
    exact ⟨pattern.marks_symbol.allows, .inside init⟩
  · exact fun read given form member => .inside (given.2 form member)
  · exact fun read given _ => Pattern.ends_lowerLoop marks given.1 given.2

theorem ends_analyzeLambda :
    Ends root.Blames (fun lambda : Lambda Node => lambda.body.Traced root)
      (analyzeLambda visit args span scope) := by
  unfold analyzeLambda
  split
  · exact .fail marks.blames
  next items vectorSpan metadata body =>
    obtain ⟨vector, bodyInside⟩ := List.forall_mem_cons.mp inside
    have items : ∀ item ∈ items, item.Inside root := fun _ => vector.item_of_vector
    refine (Parameters.ends_lower settings.coreNamespace items).ofNames.bind fun params wraps => ?_
    refine Ends.newFrame.bind fun frame _ => ?_
    have around := Pattern.arises_bindAround marks wraps bodyInside
    exact (ends_analyzeBody traces marks.allows around).bind fun node placed =>
      .pure placed.traced
  next other body _ => exact .failAt ((inside other List.mem_cons_self).blames fun _ => rfl)

theorem ends_analyzeFn :
    Ends root.Blames (Node.Placed root span) (analyzeFn visit args span scope) := by
  refine (ends_analyzeLambda traces marks inside).bind fun lambda traced => .pure ?_
  apply Node.placed_bare marks.allows rfl
  simpa [Shape.parts, Lambda.part] using traced

theorem ends_analyzeBranch :
    Ends root.Blames (Node.Placed root span) (analyzeBranch visit args span scope) := by
  unfold analyzeBranch
  split
  · simp only [List.forall_mem_cons] at inside
    exact ends_analyzeChoice traces marks.allows (.inside inside.1) (.inside inside.2.1)
      (.scalar rfl)
  · simp only [List.forall_mem_cons] at inside
    exact ends_analyzeChoice traces marks.allows (.inside inside.1) (.inside inside.2.1)
      (.inside inside.2.2.1)
  · exact .fail marks.blames

theorem ends_analyzeThrow :
    Ends root.Blames (Node.Placed root span) (analyzeThrow visit args span scope) := by
  unfold analyzeThrow
  split
  · refine (ends_visit traces (arise_args inside _ List.mem_cons_self)).bind
      fun exception traced => .pure ?_
    apply Node.placed_bare marks.allows rfl
    simpa [Shape.parts, Shape.children] using traced
  · exact .fail marks.blames

theorem ends_analyzeApply :
    Ends root.Blames (Node.Placed root span) (analyzeApply visit args span scope) := by
  unfold analyzeApply
  split
  · obtain ⟨callee, others⟩ := List.forall_mem_cons.mp (arise_args inside)
    refine (ends_visit traces callee).bind fun callee traced => ?_
    refine (ends_visitAll traces others).bind fun args argsTraced => .pure ?_
    apply Node.placed_bare marks.allows rfl
    simpa [Shape.parts, Shape.children] using ⟨traced, argsTraced⟩
  · exact .fail marks.blames

theorem ends_analyzeRecur :
    Ends root.Blames (Node.Placed root span) (analyzeRecur visit args span scope) := by
  unfold analyzeRecur
  split
  · exact .fail marks.blames
  · split
    · refine Ends.activate.bind fun _ _ => ?_
      refine (ends_visitAll traces (arise_args inside)).bind fun args traced => .pure ?_
      apply Node.placed_bare marks.allows rfl
      simpa [Shape.parts, Shape.children] using traced
    · exact .fail marks.blames

omit inside in
theorem ends_analyzeEach {key : Option Form} {value coll : Form} {body : List Form}
    (keyInside : ∀ form ∈ key, form.Inside root) (valueInside : value.Inside root)
    (collInside : coll.Inside root) (bodyInside : ∀ form ∈ body, form.Inside root) :
    Ends root.Blames (Node.Placed root span)
      (analyzeEach visit key value coll body span scope) := by
  refine (ends_visit traces (.inside collInside)).bind fun coll collTraced => ?_
  have named := (Pattern.ends_nameFor settings.coreNamespace valueInside).ofNames
  have keyed := (Pattern.ends_nameForOption settings.coreNamespace keyInside).ofNames
  refine named.bind fun value here => keyed.bind fun key there => ?_
  have around := Pattern.arises_bindAround marks (here.append there) bodyInside
  refine (ends_analyzeBody traces marks.allows around).bind fun node placed => .pure ?_
  apply Node.placed_bare marks.allows rfl
  simpa [Shape.parts] using ⟨collTraced, placed.traced⟩

theorem ends_analyzeForeach :
    Ends root.Blames (Node.Placed root span) (analyzeForeach visit args span scope) := by
  unfold analyzeForeach
  split
  · exact .fail marks.blames
  · obtain ⟨vector, bodyInside⟩ := List.forall_mem_cons.mp inside
    exact ends_analyzeEach traces marks (by simp) (vector.item_of_vector (by simp))
      (vector.item_of_vector (by simp)) bodyInside
  · obtain ⟨vector, bodyInside⟩ := List.forall_mem_cons.mp inside
    refine ends_analyzeEach traces marks ?_ (vector.item_of_vector (by simp))
      (vector.item_of_vector (by simp)) bodyInside
    intro form given
    obtain rfl := Option.mem_some.mp given
    exact vector.item_of_vector List.mem_cons_self
  · exact .fail ((inside _ List.mem_cons_self).marks rfl).blames
  next other body _ _ _ => exact .failAt ((inside other List.mem_cons_self).blames fun _ => rfl)

theorem ends_analyzeAssign :
    Ends root.Blames (Node.Placed root span) (analyzeAssign settings visit args span scope) := by
  unfold analyzeAssign
  split
  next target value =>
    simp only [List.forall_mem_cons] at inside
    split
    · exact .fail (marks.or inside.1.allows).blames
    next symbol found =>
      have place : root.Marks symbol.span := by
        cases target with
        | symbol name own metadata =>
          obtain rfl := Option.some.inj found
          exact inside.1.marks rfl
        | _ => contradiction
      refine (ends_analyzeSymbol place).bind fun target placed => ?_
      split
      · refine (ends_visit traces (.inside inside.2.1)).bind fun value traced => .pure ?_
        apply Node.placed_bare marks.allows rfl
        simpa [Shape.parts, Shape.children] using ⟨placed.traced, traced⟩
      · exact .fail (marks.or (placed.span ▸ place.allows)).blames
  · exact .fail marks.blames

theorem ends_analyzeHostNew :
    Ends root.Blames (Node.Placed root span) (analyzeHostNew visit args span scope) := by
  unfold analyzeHostNew
  split
  · exact .fail marks.blames
  · obtain ⟨cls, others⟩ := List.forall_mem_cons.mp (arise_args inside)
    refine (ends_visit traces cls).bind fun cls traced => ?_
    refine (ends_visitAll traces others).bind fun args argsTraced => .pure ?_
    apply Node.placed_bare marks.allows rfl
    simpa [Shape.parts, Shape.children] using ⟨traced, argsTraced⟩

theorem ends_analyzeHostMember {form : SpecialForm} {static : Bool} :
    Ends root.Blames (Node.Placed root span)
      (analyzeHostMember form static visit args span scope) := by
  unfold analyzeHostMember
  split
  next target member =>
    simp only [List.forall_mem_cons] at inside
    refine (ends_visit traces (.inside inside.1)).bind fun target traced => ?_
    split
    next items place metadata =>
      have list := inside.2.1
      have behind : ∀ item ∈ items.drop 1, root.Arises settings.coreNamespace item :=
        fun item listed => .inside (list.item_of_list (List.mem_of_mem_drop listed))
      split
      · refine (ends_visitAll traces behind).bind fun args argsTraced => .pure ?_
        apply Node.placed_bare marks.allows rfl
        simpa [Shape.parts, Shape.children] using ⟨traced, argsTraced⟩
      · exact .failAt (list.marks rfl).blames
    next =>
      split
      · apply Ends.pure
        apply Node.placed_bare marks.allows rfl
        simpa [Shape.parts, Shape.children] using traced
      · exact .failAt (inside.2.1.blames fun _ => rfl)
  · exact .fail marks.blames

theorem ends_analyzeHostPropertySet :
    Ends root.Blames (Node.Placed root span)
      (analyzeHostPropertySet visit args span scope) := by
  unfold analyzeHostPropertySet
  split
  · simp only [List.forall_mem_cons] at inside
    refine (traces _ _ (.inside inside.1)).bind fun target placed => ?_
    refine (ends_visit traces (.inside inside.2.1)).bind fun value traced => ?_
    split
    · apply Ends.pure
      apply Node.placed_bare marks.allows rfl
      simpa [Shape.parts, Shape.children] using ⟨placed.traced, traced⟩
    · exact .fail (marks.or (placed.span ▸ inside.1.allows)).blames
  · exact .fail marks.blames

theorem ends_analyzeHostPair {form : SpecialForm} {shape : Node → Node → Shape Node}
    (bare : ∀ first second, (shape first second).marks = [])
    (parts : ∀ first second, (shape first second).parts = [(.inner, first), (.inner, second)]) :
    Ends root.Blames (Node.Placed root span)
      (analyzeHostPair form shape visit args span scope) := by
  unfold analyzeHostPair
  split
  · simp only [List.forall_mem_cons] at inside
    refine (ends_visit traces (.inside inside.1)).bind fun first traced => ?_
    refine (ends_visit traces (.inside inside.2.1)).bind fun second secondTraced => .pure ?_
    apply Node.placed_mk marks.allows
    · simp [bare]
    · simpa [parts] using ⟨traced, secondTraced⟩
  · exact .fail marks.blames

theorem ends_analyzeHostArraySet :
    Ends root.Blames (Node.Placed root span) (analyzeHostArraySet visit args span scope) := by
  unfold analyzeHostArraySet
  split
  · simp only [List.forall_mem_cons] at inside
    refine (ends_visit traces (.inside inside.1)).bind fun array arrayTraced => ?_
    refine (ends_visit traces (.inside inside.2.1)).bind fun index indexTraced => ?_
    refine (ends_visit traces (.inside inside.2.2.1)).bind fun value valueTraced => .pure ?_
    apply Node.placed_bare marks.allows rfl
    simpa [Shape.parts, Shape.children] using ⟨arrayTraced, indexTraced, valueTraced⟩
  · exact .fail marks.blames

omit traces inside in
theorem ends_analyzeQuote :
    Ends root.Blames (Node.Placed root span) (analyzeQuote args span scope) := by
  unfold analyzeQuote
  split
  · exact .pure (Node.placed_leaf marks.allows rfl rfl)
  · exact .fail marks.blames

end Lists

section Guarded

variable {settings : Settings} {visit : Visit} {args : List Form}
variable (traces : visit.Traces root settings.coreNamespace)

include traces

/-- The spans in a handler. -/
def Handler.Traced (root : Form) (handler : Handler Node) : Prop :=
  root.Allows handler.span ∧ handler.exception.Traced root ∧ handler.body.Traced root

theorem ends_analyzeHandler {clause : Guarded.Clause} (inside : clause.form.Inside root) :
    Ends root.Blames (Handler.Traced root)
      (Guarded.analyzeHandler settings visit scope clause) := by
  have marks : root.Marks clause.span := inside.marks rfl
  have items : ∀ item ∈ clause.items, item.Inside root := fun item member =>
    inside.item_of_list (List.mem_cons_of_mem _ member)
  unfold Guarded.analyzeHandler
  split
  next cls name body given =>
    rw [given] at items
    simp only [List.forall_mem_cons] at items
    split
    next symbol _ found _ =>
      have place : root.Marks symbol.span := by
        cases cls with
        | symbol name own metadata =>
          obtain rfl := Option.some.inj found
          exact items.1.marks rfl
        | _ => contradiction
      refine (ends_analyzeSymbol place).bind fun exception placed => ?_
      split
      · have body : ∀ form ∈ body, root.Arises settings.coreNamespace form :=
          fun form member => .inside (items.2.2 form member)
        refine (ends_analyzeBody traces marks.allows body).bind fun node bodyPlaced => ?_
        exact .pure ⟨marks.allows, placed.traced, bodyPlaced.traced⟩
      · exact .fail place.blames
    · exact .fail marks.blames
  · exact .fail marks.blames

theorem ends_analyzeHandlers {clauses : List Guarded.Clause}
    (inside : ∀ clause ∈ clauses, clause.form.Inside root) :
    Ends root.Blames (fun handlers => ∀ handler ∈ handlers, handler.Traced root)
      (Guarded.analyzeHandlers settings visit scope clauses) := by
  induction clauses with
  | nil => exact .pure (List.forall_mem_nil _)
  | cons clause rest ih =>
    obtain ⟨own, others⟩ := List.forall_mem_cons.mp inside
    refine (ends_analyzeHandler traces own).bind fun handler traced => ?_
    exact (ih others).bind fun handlers more => .pure (List.forall_mem_cons.mpr ⟨traced, more⟩)

theorem ends_analyzeCleanup {cleanup : Option Guarded.Clause}
    (inside : ∀ clause ∈ cleanup, clause.form.Inside root) :
    Ends root.Blames (fun node : Option Node => ∀ cleanup ∈ node, cleanup.Traced root)
      (Guarded.analyzeCleanup visit scope cleanup) := by
  cases cleanup with
  | none => exact .pure (by simp)
  | some clause =>
    have own := inside clause rfl
    have items : ∀ item ∈ clause.items, root.Arises settings.coreNamespace item :=
      fun item member => .inside (own.item_of_list (List.mem_cons_of_mem _ member))
    refine (ends_analyzeBody traces own.allows items).bind fun node placed => .pure ?_
    simpa using placed.traced

theorem ends_analyzeGuarded (marks : root.Marks span) (inside : ∀ arg ∈ args, arg.Inside root) :
    Ends root.Blames (Node.Placed root span)
      (analyzeGuarded settings visit args span scope) := by
  refine (Ends.ofExcept (Guarded.reads_parts inside)).bind fun parts given => ?_
  obtain ⟨bodyInside, handlers, cleanup⟩ := given
  have body : ∀ form ∈ parts.body, root.Arises settings.coreNamespace form :=
    fun form member => .inside (bodyInside form member)
  split
  · exact ends_analyzeBody traces marks.allows body
  · refine (ends_analyzeBody traces marks.allows body).bind fun node placed => ?_
    refine (ends_analyzeHandlers traces handlers).bind fun handlers traced => ?_
    refine (ends_analyzeCleanup traces cleanup).bind fun cleanup cleanupTraced => .pure ?_
    apply Node.placed_mk marks.allows
    · simpa [Shape.marks] using fun handler member => (traced handler member).1
    · simp only [Shape.parts, List.mem_append, List.mem_cons, List.mem_flatMap, List.mem_map]
      rintro part ((rfl | ⟨handler, member, own⟩) | ⟨last, listed, rfl⟩)
      · exact placed.traced
      · simp only [Handler.parts, List.mem_cons, List.not_mem_nil, or_false] at own
        rcases own with rfl | rfl
        · exact (traced handler member).2.1
        · exact (traced handler member).2.2
      · exact cleanupTraced last (Option.mem_toList.mp listed)

end Guarded

section Definitions

variable {settings : Settings} {visit : Visit} {args : List Form}
variable (traces : visit.Traces root settings.coreNamespace) (marks : root.Marks span)
variable (inside : ∀ arg ∈ args, arg.Inside root)

/-- Both ends of a span, as metadata, are made of scalars. -/
theorem arises_ofSpan {place : Span} {entry : Form × Form} (member : entry ∈ Entries.ofSpan place) :
    root.Arises core entry.1 ∧ root.Arises core entry.2 := by
  have position (line column : UInt64) (file : Option String) :
      root.Arises core (Entries.ofPosition line column file) := by
    have scalars : ∀ entry ∈ Entries.ofList
        ([(Form.plainKeyword "line", Form.int line.toInt64.toInt),
          (Form.plainKeyword "column", Form.int column.toInt64.toInt)] ++
          file.toList.map fun path => (Form.plainKeyword "file", Form.str path)),
        entry.1.isScalar = true ∧ entry.2.isScalar = true := by
      intro entry listed
      have written := Ordered.mem_ofList listed
      simp only [List.mem_append, List.mem_cons, List.not_mem_nil, or_false, List.mem_map]
        at written
      rcases written with (rfl | rfl) | ⟨path, _, rfl⟩ <;> exact ⟨rfl, rfl⟩
    exact .map (.inl rfl) (fun entry listed => .scalar (scalars entry listed).1)
      fun entry listed => .scalar (scalars entry listed).2
  have listed := Ordered.mem_ofList member
  simp only [List.mem_cons, List.not_mem_nil, or_false] at listed
  rcases listed with rfl | rfl <;> exact ⟨.scalar rfl, position _ _ _⟩

/-- The metadata of a definition, which is analyzed as a map. -/
theorem arises_metadata {name : Symbol} {given : Option Form} {entries : Entries}
    (allows : root.Allows span) (named : name.form.Inside root)
    (givenInside : ∀ form ∈ given, form.Inside root)
    (collected : Definition.collectMetadata name given span = .ok entries) :
    root.Arises core (.map entries span []) := by
  have arise : ∀ entry ∈ entries, root.Arises core entry.1 ∧ root.Arises core entry.2 := by
    intro entry member
    rcases Definition.mem_collectMetadata collected member with
      ⟨form, written, read, same, listed⟩ | own | ⟨place, _, listed⟩
    · have formInside := givenInside form written
      cases form with
      | str text =>
        obtain rfl := Except.ok.inj same
        obtain rfl := List.mem_singleton.mp listed
        exact ⟨.scalar rfl, .scalar rfl⟩
      | keyword name =>
        obtain rfl := Except.ok.inj same
        obtain rfl := List.mem_singleton.mp listed
        exact ⟨.scalar rfl, .scalar rfl⟩
      | map own _ _ =>
        obtain rfl := Except.ok.inj same
        obtain ⟨key, value⟩ := formInside.entry_of_map entry listed
        exact ⟨.inside key, .inside value⟩
      | _ => contradiction
    · obtain ⟨key, value⟩ := named.entry_of_metadata entry own
      exact ⟨.inside key, .inside value⟩
    · exact arises_ofSpan listed
  exact .map allows (fun entry member => (arise entry member).1)
    fun entry member => (arise entry member).2

include marks inside

include traces in
theorem ends_analyzeDefine :
    Ends root.Blames (Node.Placed root span) (analyzeDefine visit args span scope) := by
  unfold analyzeDefine
  split
  · refine (Ends.ofExcept (Definition.reads_parts marks inside)).bind fun read parts => ?_
    refine (Ends.ofExcept (reads_definedName marks inside)).bind fun name named => ?_
    have metadata : Reads root.Blames
        (fun entries => root.Arises settings.coreNamespace (.map entries span []))
        (Definition.collectMetadata name read.1 span) :=
      (Definition.reads_collectMetadata parts.1).given fun entries collected _ =>
        arises_metadata marks.allows named parts.1 collected
    refine (Ends.ofExcept metadata).bind fun entries arises => Ends.registry.bind fun _ _ => ?_
    refine (Ends.define fun _ _ => named.marks_symbol.blames).bind fun previous _ => ?_
    refine (ends_visitBoth traces arises (.inside parts.2)).onFailure.bind fun nodes traced => ?_
    apply Ends.pure
    apply Node.placed_bare marks.allows rfl
    simpa [Shape.parts, Shape.children] using traced
  · exact .fail marks.blames

theorem ends_analyzeDefInterface :
    Ends root.Blames (Node.Placed root span) (analyzeDefInterface args span scope) := by
  have behind : ∀ arg ∈ args.drop 1, arg.Inside root := fun arg member =>
    inside arg (List.mem_of_mem_drop member)
  unfold analyzeDefInterface
  split
  · exact .fail marks.blames
  · refine (Ends.ofExcept (reads_definedName marks inside)).bind fun name named => ?_
    refine (Ends.ofExcept (InterfaceMethod.reads_ofForms behind)).bind fun methods _ => ?_
    refine Ends.registry.bind fun _ _ => ?_
    refine (Ends.define fun _ _ => named.marks_symbol.blames).bind fun _ _ => ?_
    refine Ends.changeRegistry.bind fun _ _ => .pure ?_
    exact Node.placed_leaf marks.allows rfl rfl

theorem ends_analyzeDefException :
    Ends root.Blames (Node.Placed root span) (analyzeDefException args span scope) := by
  unfold analyzeDefException
  split
  · refine (Ends.ofExcept (reads_definedName marks inside)).bind fun name named => ?_
    refine Ends.registry.bind fun _ _ => ?_
    refine (Ends.define fun _ _ => named.marks_symbol.blames).bind fun _ _ => .pure ?_
    exact Node.placed_leaf marks.allows rfl rfl
  · exact .fail marks.blames

theorem ends_analyzeNs :
    Ends root.Blames (Node.Placed root span) (analyzeNs settings args span scope) := by
  refine (Ends.ofExcept (Declaration.reads_ofArgs marks inside)).bind fun _ _ => ?_
  exact Ends.changeRegistry.bind fun _ _ => .pure (Node.placed_leaf marks.allows rfl rfl)

theorem ends_analyzeInNs :
    Ends root.Blames (Node.Placed root span) (analyzeInNs settings args span scope) := by
  unfold analyzeInNs
  split
  next arg =>
    have own := inside arg List.mem_cons_self
    refine (Ends.ofExcept (Declaration.reads_inNamespace own)).bind fun ns _ => ?_
    have place := marks.or own.allows
    refine (Ends.ofExcept (Settings.reads_checkNamespace place)).bind fun _ _ => ?_
    exact Ends.changeRegistry.bind fun _ _ => .pure (Node.placed_leaf marks.allows rfl rfl)
  · exact .fail marks.blames

omit marks inside
include traces

/-- The spans in a method. -/
def StructMethod.Traced (root : Form) (method : StructMethod Node) : Prop :=
  root.Allows method.span ∧ method.lambda.body.Traced root

theorem ends_analyzeMethods {definition : Definition} {declared : List String}
    {methods : List Struct.MethodForm} (inside : ∀ method ∈ methods, method.Inside root) :
    Ends root.Blames (fun nodes => ∀ method ∈ nodes, method.Traced root)
      (Struct.analyzeMethods visit definition declared scope methods) := by
  induction methods with
  | nil => exact .pure (List.forall_mem_nil _)
  | cons method rest ih =>
    obtain ⟨own, others⟩ := List.forall_mem_cons.mp inside
    refine (Ends.ofExcept (Struct.reads_methodName own)).bind fun name _ => ?_
    obtain ⟨metadata, list⟩ := own
    have behind : ∀ item ∈ method.items.drop 1, item.Inside root := fun item member =>
      list.item_of_list (List.mem_of_mem_drop member)
    refine (ends_analyzeLambda traces (list.marks rfl) behind).bind fun lambda traced => ?_
    refine (ih others).bind fun methods more => .pure ?_
    exact List.forall_mem_cons.mpr ⟨⟨list.allows, traced⟩, more⟩

theorem ends_analyzeGroups {groups : List Struct.Group}
    (inside : ∀ group ∈ groups, group.Inside root) :
    Ends root.Blames
      (fun nodes => ∀ implementation ∈ nodes, ∀ method ∈ implementation.methods,
        method.Traced root)
      (Struct.analyzeGroups settings visit scope groups) := by
  induction groups with
  | nil => exact .pure (List.forall_mem_nil _)
  | cons group rest ih =>
    obtain ⟨⟨interface, methods⟩, others⟩ := List.forall_mem_cons.mp inside
    have place := interface.marks_symbol
    have first : Ends root.Blames
        (fun implementation : Implementation Node => ∀ method ∈ implementation.methods,
          method.Traced root)
        (Struct.analyzeGroup settings visit scope group) := by
      refine Ends.registry.bind fun registry _ => ?_
      refine (Ends.ofExcept (Struct.reads_interface? place)).bind fun found _ => ?_
      refine (ends_analyzeMethods traces methods).bind fun nodes traced => ?_
      split
      · exact .pure traced
      · exact .fail place.blames
    refine first.bind fun implementation traced => (ih others).bind fun more later => ?_
    exact .pure (List.forall_mem_cons.mpr ⟨traced, later⟩)

include marks inside in
theorem ends_analyzeDefStruct :
    Ends root.Blames (Node.Placed root span)
      (analyzeDefStruct settings visit args span scope) := by
  have behind : ∀ arg ∈ args.drop 2, arg.Inside root := fun arg member =>
    inside arg (List.mem_of_mem_drop member)
  unfold analyzeDefStruct
  split
  · exact .fail marks.blames
  · refine (Ends.ofExcept (reads_definedName marks inside)).bind fun name named => ?_
    refine (Ends.ofExcept (Struct.reads_fields marks inside)).bind fun fields _ => ?_
    refine Ends.registry.bind fun _ _ => ?_
    refine (Ends.define fun _ _ => named.marks_symbol.blames).bind fun _ _ => ?_
    have groups := Struct.reads_group (List.forall_mem_nil _) behind
    refine (Ends.ofExcept groups).bind fun groups written => ?_
    refine (ends_analyzeGroups traces written).bind fun interfaces traced => .pure ?_
    apply Node.placed_mk marks.allows
    · simp only [Shape.marks, List.mem_flatMap, List.mem_map]
      rintro mark ⟨implementation, member, method, listed, rfl⟩
      exact (traced implementation member method listed).1
    · simp only [Shape.parts, List.mem_flatMap, List.mem_map]
      rintro part ⟨implementation, member, method, listed, rfl⟩
      exact (traced implementation member method listed).2

end Definitions

section Forms

variable {analyzer : Analyzer} {visit expand : Visit}
variable (traces : visit.Traces root analyzer.settings.coreNamespace)

include traces

theorem ends_analyzeSpecial {special : SpecialForm} {args : List Form} (marks : root.Marks span)
    (inside : ∀ arg ∈ args, arg.Inside root) :
    Ends root.Blames (Node.Placed root span)
      (analyzer.analyzeSpecial visit special args span scope) := by
  cases special with
  | define => exact ends_analyzeDefine traces marks inside
  | fn => exact ends_analyzeFn traces marks inside
  | letIn => exact ends_writtenLet traces marks inside
  | loop => exact ends_writtenLoop traces marks inside
  | block => exact ends_analyzeBody traces marks.allows (arise_args inside)
  | branch => exact ends_analyzeBranch traces marks inside
  | recur => exact ends_analyzeRecur traces marks inside
  | quote => exact ends_analyzeQuote marks
  | apply => exact ends_analyzeApply traces marks inside
  | guarded => exact ends_analyzeGuarded traces marks inside
  | throw => exact ends_analyzeThrow traces marks inside
  | assign => exact ends_analyzeAssign traces marks inside
  | foreach => exact ends_analyzeForeach traces marks inside
  | ns => exact ends_analyzeNs marks inside
  | inNs => exact ends_analyzeInNs marks inside
  | defStruct => exact ends_analyzeDefStruct traces marks inside
  | defInterface => exact ends_analyzeDefInterface marks inside
  | defException => exact ends_analyzeDefException marks inside
  | hostNew => exact ends_analyzeHostNew traces marks inside
  | hostMember => exact ends_analyzeHostMember traces marks inside
  | hostStaticMember => exact ends_analyzeHostMember traces marks inside
  | hostPropertySet => exact ends_analyzeHostPropertySet traces marks inside
  | hostArrayGet => exact ends_analyzeHostPair traces marks inside (fun _ _ => rfl) fun _ _ => rfl
  | hostArraySet => exact ends_analyzeHostArraySet traces marks inside
  | hostArrayPush => exact ends_analyzeHostPair traces marks inside (fun _ _ => rfl) fun _ _ => rfl
  | hostArrayUnset =>
    exact ends_analyzeHostPair traces marks inside (fun _ _ => rfl) fun _ _ => rfl

omit traces in
/-- Without a host, a call of a macro or an inline function is refused at the call. -/
theorem ends_callHost {reenter : Form → AnalyzeM Node} {callable : Callable} {args : List Form}
    {P : Form → Prop} (marks : root.Marks span) :
    Ends root.Blames P (Call.callHost .none reenter callable args span) := by
  have call (state : State) : Call.callHost .none reenter callable args span state =
      (throw { fault := .hostCall callable (.unbound callable), span,
               cause := some (HostError.unbound callable).message } : AnalyzeM Form) state := rfl
  intro state
  rw [call]
  exact marks.blames

omit traces in
theorem ends_expansionKind? {reenter : Form → AnalyzeM Node} {definition : Definition}
    {args : List Form} (marks : root.Marks span) :
    Ends root.Blames (fun _ => True)
      (Call.expansionKind? .none reenter definition args span) := by
  unfold Call.expansionKind?
  split
  · exact .pure trivial
  split
  · exact .pure trivial
  split
  · exact .pure trivial
  · exact (ends_callHost marks).bind fun _ (_ : True) => .pure trivial

omit traces in
theorem ends_expanded? {settings : Settings} {reenter : Form → AnalyzeM Node} {head : Form}
    {args : List Form} (marks : root.Marks span)
    (located : ∀ symbol, head.symbol? = some symbol → root.Marks symbol.span) :
    Ends root.Blames (fun found => found = none)
      (Call.expanded? settings .none reenter head args span scope) := by
  unfold Call.expanded?
  split
  · exact .pure rfl
  next symbol found =>
    refine Ends.registry.bind fun registry _ => ?_
    refine (Ends.ofExcept (Resolve.reads_expandable? (located symbol found))).bind
      fun definition _ => ?_
    split
    · exact .pure rfl
    · refine (ends_expansionKind? marks).bind fun kind _ => ?_
      split
      · exact .pure rfl
      · exact (ends_callHost marks).bind fun _ (impossible : False) => impossible.elim

theorem ends_analyzeCall {head : Form} {args : List Form} (marks : root.Marks span)
    (located : ∀ symbol, head.symbol? = some symbol → root.Marks symbol.span)
    (headArises : root.Arises analyzer.settings.coreNamespace head)
    (arise : ∀ arg ∈ args, root.Arises analyzer.settings.coreNamespace arg) :
    Ends root.Blames (Node.Placed root span)
      (analyzeCall analyzer.settings .none visit expand head args span scope) := by
  refine (ends_expanded? marks located).bind fun found none => ?_
  subst none
  refine (ends_visit traces headArises).bind fun callee traced => ?_
  refine (ends_visitAll traces arise).bind fun args argsTraced => .pure ?_
  apply Node.placed_bare marks.allows rfl
  simpa [Shape.parts, Shape.children] using ⟨traced, argsTraced⟩

/-- A form of the root. -/
theorem ends_inside (unhosted : analyzer.host = .none) {form : Form} (inside : form.Inside root) :
    Ends root.Blames (Node.Placed root form.span)
      (analyzer.analyzeForm visit expand form scope) := by
  cases form with
  | symbol name span metadata =>
    have marks : root.Marks (Symbol.mk name span metadata).span := inside.marks rfl
    exact ends_analyzeSymbol marks
  | list items span metadata =>
    have marks : root.Marks span := inside.marks rfl
    cases items with
    | nil => exact .pure (Node.placed_leaf marks.allows rfl rfl)
    | cons head args =>
      have headInside : head.Inside root := inside.item_of_list List.mem_cons_self
      have argsInside : ∀ arg ∈ args, arg.Inside root := fun arg member =>
        inside.item_of_list (List.mem_cons_of_mem head member)
      simp only [Analyzer.analyzeForm, unhosted]
      split
      · exact ends_analyzeSpecial traces marks argsInside
      · refine ends_analyzeCall traces marks (fun symbol found => ?_) (.inside headInside)
          (arise_args argsInside)
        cases head with
        | symbol name own metadata =>
          obtain rfl := Option.some.inj found
          exact headInside.marks rfl
        | _ => contradiction
  | vector items span metadata =>
    exact ends_analyzeVector traces inside.allows fun item member =>
      .inside (inside.item_of_vector member)
  | map entries span metadata =>
    exact ends_analyzeMap traces inside.allows
      (fun entry member => .inside (inside.entry_of_map entry member).1)
      fun entry member => .inside (inside.entry_of_map entry member).2
  | _ => exact .pure (Node.placed_leaf (.inl rfl) rfl rfl)

theorem traces_analyzeForm (unhosted : analyzer.host = .none) :
    Visit.Traces root analyzer.settings.coreNamespace (analyzer.analyzeForm visit expand) := by
  intro form scope arises
  cases arises with
  | inside inside => exact ends_inside traces unhosted inside
  | scalar isScalar =>
    cases form with
    | symbol | list | vector | map => contradiction
    | _ => exact .pure (Node.placed_leaf (.inl rfl) rfl rfl)
  | name marks => exact ends_analyzeSymbol marks
  | @accessor base args span isAccessor marks arise =>
    simp only [Pattern.accessor, Analyzer.analyzeForm, Analyzer.special?, Form.symbol?,
      Option.bind_some, SpecialForm.ofName?_accessor isAccessor, unhosted]
    have head : root.Arises analyzer.settings.coreNamespace
        (Symbol.mk (.qualified analyzer.settings.coreNamespace base) span []).form := .name marks
    refine ends_analyzeCall traces marks (fun symbol found => ?_) head arise
    obtain rfl := Option.some.inj found
    exact marks
  | map allows keys values => exact ends_analyzeMap traces allows keys values
  | @letIn pairs body span marks patterns values rest =>
    have header : Reads root.Blames (fun read => read = (pairs, body))
        (Binder.header .letIn (.vector (Binder.flatten pairs) none [] :: body) span) := by
      simp only [Binder.header, Binder.pairs?_flatten]
      rfl
    refine ends_analyzeLet traces marks header (fun read same => ?_) fun read same => ?_
    · subst same
      exact ⟨patterns, values⟩
    · subst same
      exact rest
  | @loop pairs body span marks names rest =>
    have header : Reads root.Blames (fun read => read = (pairs, body))
        (Binder.header .loop (.vector (Binder.flatten pairs) none [] :: body) span) := by
      simp only [Binder.header, Binder.pairs?_flatten]
      rfl
    refine ends_analyzeLoop traces marks header (fun read same => ?_) (fun read same => ?_)
      fun read same patterns => ?_
    · subst same
      refine flat_simplePairs fun pair member symbol own => ?_
      obtain ⟨name, _, located, rfl⟩ := names pair member
      obtain rfl : name = symbol := Symbol.form_inj own
      exact ⟨located.allows, .name located⟩
    · subst same
      exact rest
    · subst same
      refine absurd patterns (Bool.not_eq_false _ ▸ List.all_eq_true.mpr fun pair member => ?_)
      obtain ⟨symbol, plain, _, rfl⟩ := names pair member
      have unqualified : symbol.name.isQualified = false := Symbol.plain_iff.mp plain
      simp [Pattern.isSimple, Form.plainSymbol?, Form.symbol?, Symbol.form, Symbol.isQualified,
        unqualified]

end Forms

theorem Analyzer.traces_descend {analyzer : Analyzer} (unhosted : analyzer.host = .none)
    (expand : Visit) (depth : Nat) :
    Visit.Traces root analyzer.settings.coreNamespace (analyzer.descend expand depth) := by
  induction depth with
  | zero => exact fun form scope _ => .failAt (.limit fun genuine => genuine rfl)
  | succ depth ih => exact traces_analyzeForm ih unhosted

end LispFront
