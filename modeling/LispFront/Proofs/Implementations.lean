import LispFront.Proofs.Rollback
import LispFront.Proofs.Slots

/-! Behind the fields of a struct stand interfaces, each with the lists of its methods. The tree has
an implementation for each of them that carries these lists and has the names that the interface
declares when it is looked up (`Struct.Implements`). A method may declare interfaces itself, so each
group starts from the state that the one before it leaves (`Threads`). -/

namespace LispFront

/-- Steps from left to right, each from the state that the one before it leaves. -/
inductive Threads {α β : Type} (step : State → α → β → State → Prop) :
    State → List α → List β → State → Prop where
  | nil (s : State) : Threads step s [] [] s
  | cons {s t u : State} {a : α} {b : β} {as : List α} {bs : List β} (first : step s a b t)
      (rest : Threads step t as bs u) : Threads step s (a :: as) (b :: bs) u

theorem threads_visitAll {visit : Visit} {scope : Scope} {forms : List Form} {nodes : List Node}
    {s t : State} (run : Gives (visitAll visit scope forms) s nodes t) :
    Threads (fun s form node t => Gives (visit form scope) s node t) s forms nodes t := by
  induction forms generalizing s nodes with
  | nil =>
    obtain ⟨rfl, rfl⟩ := gives_pure.mp run
    exact .nil s
  | cons form rest ih =>
    simp only [visitAll, gives_bind, gives_pure] at run
    obtain ⟨node, _, first, others, _, later, rfl, rfl⟩ := run
    exact .cons first (ih later)

/-- The function has the parameters that are written, with a symbol each and one more for a mark
that none follows. Its body is the block of the body forms, in their order, inside of a `let` if
some of the parameters have to be taken apart. -/
structure Lambda.Keeps (visit : Visit) (items body : List Form) (span : Option Span)
    (lambda : Lambda Node) (t : State) : Prop where
  variadic : lambda.variadic = items.any Parameters.isMark
  length : lambda.params.length = (items.filter fun item => !Parameters.isMark item).length +
    if items.any Parameters.isMark ∧ Parameters.restPatterns items = [] then 1 else 0
  body : ∃ bindings scope stmts ret u v,
    Parameters.Named (items.filter fun item => !Parameters.isMark item) lambda.params bindings ∧
    lambda.body = .mk scope span (.block stmts ret) ∧
    Threads (fun s form node t => Gives (visit form scope.effect) s node t) u
      (Pattern.bindAround bindings body span).dropLast stmts v ∧
    Gives (visit ((Pattern.bindAround bindings body span).getLastD .nil) scope) v ret t

/-- The arguments of a function are a vector of parameters and its body forms. -/
theorem keeps_of_analyzeLambda {visit : Visit} {args : List Form} {span : Option Span}
    {scope : Scope} {s t : State} {lambda : Lambda Node}
    (run : Gives (analyzeLambda visit args span scope) s lambda t) :
    ∃ items place own body, args = .vector items place own :: body ∧
      lambda.Keeps visit items body span t := by
  unfold analyzeLambda at run
  split at run
  · exact (not_gives_fail run).elim
  next items place own body =>
    simp only [analyzeBody, gives_bind, gives_pure, gives_ofNames, gives_newFrame] at run
    obtain ⟨params, _, ⟨names, lowered, _⟩, _, _, ⟨rfl, _⟩, _, _, ⟨stmts, v, first, ret, _, last,
      rfl, rfl⟩, rfl, rfl⟩ := run
    exact ⟨items, place, own, body, rfl, Parameters.lower_variadic lowered,
      Parameters.lower_length lowered, params.bindings, _, stmts, ret, _, v,
      Parameters.named_lower lowered, rfl, threads_visitAll first, last⟩
  · exact (not_gives_failAt run).elim

theorem plainSymbols_forms {fault : Fault} {forms : List Form} {symbols : List Symbol}
    (read : plainSymbols fault forms = .ok symbols) : forms = symbols.map Symbol.form := by
  induction forms generalizing symbols with
  | nil =>
    obtain rfl := Except.ok.inj read
    rfl
  | cons form rest ih =>
    unfold plainSymbols at read
    split at read
    next symbol found =>
      obtain ⟨others, more, same⟩ := bind_eq_ok.mp read
      obtain rfl := Except.ok.inj same
      rw [Form.plainSymbol?_eq_some found, ih more]
      rfl
    · contradiction

theorem exists_of_definedName {form : SpecialForm} {args : List Form} {span : Option Span}
    {name : Symbol} (named : definedName form args span = .ok name) :
    ∃ rest, args = name.form :: rest := by
  obtain ⟨first, head, plain⟩ := Option.bind_eq_some_iff.mp (definedName_eq_ok named)
  obtain ⟨rest, rfl⟩ := List.head?_eq_some_iff.mp head
  exact ⟨rest, by rw [Form.plainSymbol?_eq_some plain]⟩

namespace Struct

theorem fields_eq_ok {args : List Form} {span : Option Span} {symbols : List Symbol}
    (read : fields args span = .ok symbols) : ∃ vectorSpan vectorMetadata rest,
    args.drop 1 = .vector (symbols.map Symbol.form) vectorSpan vectorMetadata :: rest := by
  unfold fields at read
  split at read
  next items vectorSpan vectorMetadata rest found =>
    exact ⟨vectorSpan, vectorMetadata, rest, by rw [found, plainSymbols_forms read]⟩
  · contradiction

structure WrittenMethod where
  items : List Form
  span : Option Span
  metadata : Entries

def WrittenMethod.form (method : WrittenMethod) : Form :=
  .list method.items method.span method.metadata

def WrittenMethod.read (method : WrittenMethod) : MethodForm :=
  { items := method.items, span := method.span }

/-- An interface and the lists up to the next one. -/
structure WrittenGroup where
  interface : Symbol
  methods : List WrittenMethod

namespace WrittenGroup

def forms (group : WrittenGroup) : List Form :=
  group.interface.form :: group.methods.map WrittenMethod.form

def read (group : WrittenGroup) : Group :=
  { interface := group.interface, methods := group.methods.map WrittenMethod.read }

end WrittenGroup

section Reading

variable {before groups : List Group} {last : Group} {method : MethodForm} {forms : List Form}

theorem addMethod_concat : addMethod method (before ++ [last]) =
    some (before ++ [{ last with methods := last.methods ++ [method] }]) := by
  induction before with
  | nil => rfl
  | cons group rest ih =>
    have more : rest ++ [last] ≠ [] := by simp
    rw [List.cons_append, addMethod.eq_3 _ _ _ more, ih]
    rfl

/-- Lists go to the last group, up to the next symbol. -/
theorem group_concat (read : group (before ++ [last]) forms = .ok groups) :
    ∃ (methods : List WrittenMethod) (written : List WrittenGroup),
      forms = methods.map WrittenMethod.form ++ written.flatMap WrittenGroup.forms ∧
      groups = before ++
        { last with methods := last.methods ++ methods.map WrittenMethod.read } ::
          written.map WrittenGroup.read := by
  induction forms generalizing before last with
  | nil =>
    obtain rfl := Except.ok.inj read
    exact ⟨[], [], rfl, by simp⟩
  | cons form rest ih =>
    cases form with
    | symbol name span metadata =>
      obtain ⟨methods, written, rfl, rfl⟩ := ih read
      exact ⟨[], ⟨⟨name, span, metadata⟩, methods⟩ :: written, rfl, by simp [WrittenGroup.read]⟩
    | list items span metadata =>
      simp only [group, addMethod_concat] at read
      obtain ⟨methods, written, rfl, rfl⟩ := ih read
      exact ⟨⟨items, span, metadata⟩ :: methods, written, rfl, by simp [WrittenMethod.read]⟩
    | _ => contradiction

/-- What is grouped is what stands there, interface by interface. -/
theorem group_eq_ok (read : group [] forms = .ok groups) :
    ∃ written : List WrittenGroup, forms = written.flatMap WrittenGroup.forms ∧
      groups = written.map WrittenGroup.read := by
  cases forms with
  | nil =>
    obtain rfl := Except.ok.inj read
    exact ⟨[], rfl, rfl⟩
  | cons form rest =>
    cases form with
    | symbol name span metadata =>
      have read : group ([] ++ [⟨⟨name, span, metadata⟩, []⟩]) rest = .ok groups := read
      obtain ⟨methods, written, rfl, rfl⟩ := group_concat read
      exact ⟨⟨⟨name, span, metadata⟩, methods⟩ :: written, rfl, rfl⟩
    | _ => contradiction

end Reading

/-- The method carries the list: its name is the head of it, and its function is that of the
parameters and the body forms behind, and keeps them. -/
structure Carries (visit : Visit) (scope : Scope) (s : State) (written : WrittenMethod)
    (method : StructMethod Node) (t : State) : Prop where
  plain : method.name.Plain
  function : ∃ items place own body,
    written.items = method.name.form :: .vector items place own :: body ∧
    Gives (analyzeLambda visit (.vector items place own :: body) written.span scope) s
      method.lambda t ∧
    method.lambda.Keeps visit items body written.span t
  span : method.span = written.span
  scope : method.scope = scope

/-- The implementation is of the interface that the symbol resolves to, has the methods that are
written, and has the names that are declared at the start. -/
structure Implements (core : String) (visit : Visit) (scope : Scope) (s : State)
    (written : WrittenGroup) (implementation : Implementation Node) (t : State) : Prop where
  complete : ∃ definition declared,
    Resolve.global? core s.registry written.interface = .ok (some definition) ∧
    s.registry.interface? definition.ns definition.base = some declared ∧
    implementation.interface = platformName definition.ns definition.base ∧
    ∀ base, base ∈ implementation.methods.map (fun method => method.name.base) ↔ base ∈ declared
  methods : Threads (Carries visit scope) s written.methods implementation.methods t

section Runs

variable {settings : Settings} {visit : Visit} {scope : Scope} {s t : State}
variable {definition : Definition} {declared : List String}

theorem methodName_eq_ok {method : MethodForm} {name : Symbol}
    (read : methodName method definition declared = .ok name) :
    name.Plain ∧ name.base ∈ declared ∧ ∃ args, method.items = name.form :: args := by
  unfold methodName at read
  split at read
  · contradiction
  next found =>
    split at read
    next listed =>
      obtain rfl := Except.ok.inj read
      obtain ⟨form, first, plain⟩ := Option.bind_eq_some_iff.mp found
      obtain ⟨args, items⟩ := List.head?_eq_some_iff.mp first
      refine ⟨Form.plainSymbol?_plain plain, by simpa using listed, args, ?_⟩
      rw [items, Form.plainSymbol?_eq_some plain]
    · contradiction

theorem missing_eq_nil {methods : List (StructMethod Node)} :
    missing declared methods = [] ↔
      ∀ base ∈ declared, base ∈ methods.map fun method => method.name.base := by
  simp [missing, List.filter_eq_nil_iff]

theorem threads_analyzeMethods {written : List WrittenMethod} {methods : List (StructMethod Node)}
    (run : Gives (analyzeMethods visit definition declared scope
      (written.map WrittenMethod.read)) s methods t) :
    Threads (Carries visit scope) s written methods t ∧
      ∀ method ∈ methods, method.name.base ∈ declared := by
  induction written generalizing s methods with
  | nil =>
    obtain ⟨rfl, rfl⟩ := gives_pure.mp run
    exact ⟨.nil s, List.forall_mem_nil _⟩
  | cons first rest ih =>
    simp only [List.map_cons, analyzeMethods, gives_bind, gives_ofExcept, gives_pure] at run
    obtain ⟨name, _, ⟨named, rfl⟩, lambda, _, analyzed, methods, _, others, rfl, rfl⟩ := run
    obtain ⟨plain, listed, args, items⟩ := methodName_eq_ok named
    obtain ⟨threads, all⟩ := ih others
    rw [items] at analyzed
    obtain ⟨params, place, own, body, rfl, keeps⟩ := keeps_of_analyzeLambda analyzed
    exact ⟨.cons ⟨plain, ⟨params, place, own, body, items, analyzed, keeps⟩, rfl, rfl⟩ threads,
      List.forall_mem_cons.mpr ⟨listed, all⟩⟩

theorem implements_of_analyzeGroup {written : WrittenGroup} {implementation : Implementation Node}
    (run : Gives (analyzeGroup settings visit scope written.read) s implementation t) :
    Implements settings.coreNamespace visit scope s written implementation t := by
  simp only [analyzeGroup, gives_bind, gives_ofExcept, gives_registry] at run
  obtain ⟨_, _, ⟨rfl, rfl⟩, ⟨definition, declared⟩, _, ⟨looked, rfl⟩, methods, _, analyzed, run⟩ :=
    run
  obtain ⟨resolved, registered⟩ := interface?_eq_ok looked
  obtain ⟨threads, all⟩ := threads_analyzeMethods analyzed
  split at run
  next none =>
    obtain ⟨rfl, rfl⟩ := gives_pure.mp run
    refine ⟨⟨definition, declared, resolved, registered, rfl, fun base => ⟨?_, ?_⟩⟩, threads⟩
    · intro given
      obtain ⟨method, member, rfl⟩ := List.mem_map.mp given
      exact all method member
    · exact missing_eq_nil.mp none base
  · exact (not_gives_fail run).elim

theorem threads_analyzeGroups {written : List WrittenGroup}
    {interfaces : List (Implementation Node)}
    (run : Gives (analyzeGroups settings visit scope (written.map WrittenGroup.read)) s
      interfaces t) :
    Threads (Implements settings.coreNamespace visit scope) s written interfaces t := by
  induction written generalizing s interfaces with
  | nil =>
    obtain ⟨rfl, rfl⟩ := gives_pure.mp run
    exact .nil s
  | cons first rest ih =>
    simp only [List.map_cons, analyzeGroups, gives_bind, gives_pure] at run
    obtain ⟨implementation, _, analyzed, implementations, _, others, rfl, rfl⟩ := run
    exact .cons (implements_of_analyzeGroup analyzed) (ih others)

end Runs

end Struct

/-- A struct that is accepted has an implementation for each symbol behind its fields, in their
order. Each has a method for each list up to the next symbol, in their order, with the parameters
and the body forms of the list, and the names of these methods are those that the interface
declares when it is looked up. -/
theorem struct_implements_interfaces {analyzer : Analyzer} {nameSpan span : Option Span}
    {nameMetadata metadata : Entries} {args : List Form} {scope : Scope} {s t : State} {node : Node}
    (run : analyzer.analyze
      (.list (.symbol SpecialForm.defStruct.name nameSpan nameMetadata :: args) span metadata)
      scope s = (.ok node, t)) :
    ∃ (name : Symbol) (fields : List Symbol) (vectorSpan : Option Span) (vectorMetadata : Entries)
      (written : List Struct.WrittenGroup) (interfaces : List (Implementation Node)),
      args = name.form :: .vector (fields.map Symbol.form) vectorSpan vectorMetadata ::
        written.flatMap Struct.WrittenGroup.forms ∧
      node = .mk scope span (.defStruct s.registry.current name fields interfaces) ∧
      ∃ expand depth previous registry,
        s.registry.addDefinition s.registry.current name.base
          ((Entries.flagged "struct").located span) = .ok (previous, registry) ∧
        Threads
          (Struct.Implements analyzer.settings.coreNamespace (analyzer.descend expand depth)
            ((scope.introduce fields).labelled (platformName s.registry.current name.base)))
          { s with registry } written interfaces t := by
  obtain ⟨expand, depth, special⟩ :=
    analyzer.analyze_special .defStruct nameSpan span nameMetadata metadata args scope
  rw [special] at run
  have run : Gives (analyzeDefStruct analyzer.settings (analyzer.descend expand depth) args span
    scope) s node t := run
  unfold analyzeDefStruct at run
  split at run
  · exact (not_gives_fail run).elim
  · simp only [gives_bind, gives_pure, gives_ofExcept, gives_registry] at run
    obtain ⟨name, _, ⟨named, rfl⟩, fields, _, ⟨fielded, rfl⟩, _, _, ⟨rfl, rfl⟩, previous, _,
      defined, groups, _, ⟨grouped, rfl⟩, interfaces, _, visited, rfl, rfl⟩ := run
    obtain ⟨registry, added, rfl⟩ := gives_define.mp defined
    obtain ⟨written, behind, rfl⟩ := Struct.group_eq_ok grouped
    obtain ⟨rest, rfl⟩ := exists_of_definedName named
    obtain ⟨vectorSpan, vectorMetadata, others, same⟩ := Struct.fields_eq_ok fielded
    obtain rfl : rest = _ :: others := same
    obtain rfl : others = _ := behind
    exact ⟨name, fields, vectorSpan, vectorMetadata, written, interfaces, rfl, rfl, expand, depth,
      previous, registry, added, Struct.threads_analyzeGroups visited⟩

/-- A registry with an interface `Shape` of two methods and an interface `Marked` of none. -/
def Registry.shapes : Registry :=
  (((Registry.ofSettings {}).withDefinition "user" "Shape" []).withDefinition "user" "Marked" []
    |>.addInterface "user" "Shape" ["area", "name"]).addInterface "user" "Marked" []

/-- What stands behind the fields in
`(defstruct* Square [side] Shape (name [this] 1) (area [this] side) Marked)`. -/
def Form.squareMethods : List Form :=
  [.plainSymbol "Shape",
    .list [.plainSymbol "name", .vector [.plainSymbol "this"] none [], .int 1] none [],
    .list [.plainSymbol "area", .vector [.plainSymbol "this"] none [], .plainSymbol "side"] none [],
    .plainSymbol "Marked"]

theorem struct_implements_interfaces_square : ∃ node t,
    ({} : Analyzer).analyze
      (.list (.symbol SpecialForm.defStruct.name none [] :: .plainSymbol "Square" ::
        .vector [.plainSymbol "side"] none [] :: Form.squareMethods) none [])
      .top { registry := .shapes } = (.ok node, t) ∧
    ∃ name fields written interfaces visit scope u,
      Form.squareMethods = written.flatMap Struct.WrittenGroup.forms ∧
      node.shape = .defStruct "user" name fields interfaces ∧
      Threads (Struct.Implements "core" visit scope) u written interfaces t := by
  obtain ⟨node, t, run⟩ : ∃ node t, Gives (({} : Analyzer).analyze
      (.list (.symbol SpecialForm.defStruct.name none [] :: .plainSymbol "Square" ::
        .vector [.plainSymbol "side"] none [] :: Form.squareMethods) none [])
      .top) { registry := .shapes } node t := exists_gives_of_isOk (by decide +kernel)
  obtain ⟨name, fields, _, _, written, interfaces, args, rfl, _, _, _, _, _, threads⟩ :=
    struct_implements_interfaces run
  obtain ⟨_, behind⟩ := List.cons.inj args
  obtain ⟨_, behind⟩ := List.cons.inj behind
  exact ⟨_, t, run, name, fields, written, interfaces, _, _, _, behind, rfl, threads⟩

end LispFront
