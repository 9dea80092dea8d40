import Mathlib.Data.List.Induction
import LispFront.Proofs.AppendOnly
import LispFront.Proofs.Between
import LispFront.Proofs.HeadResolution
import LispFront.Proofs.NamespaceNames
import LispFront.Proofs.Rollback
import LispFront.Proofs.Writes

/-! An interface stands in two tables: in one with its methods, and among the definitions with a
flag. To define the name again, or to take a definition back, writes to the second table alone. So
the two are in step under a name (`Registry.InStep`) as long as nothing else is defined under it,
or once the interface is declared anew after that. -/

namespace LispFront

namespace Registry

variable {first second third : Registry} {ns base home name : String} {metadata : Entries}
variable {previous : Option Definition}

/-- What has methods under this name is defined as an interface. -/
def InStep (ns base : String) (registry : Registry) : Prop :=
  ∀ methods, registry.interface? ns base = some methods →
    ∃ definition, registry.definition? ns base = some definition ∧
      definition.flag "interface" = true

theorem flag_located (ns base : String) (span : Option Span) :
    ({ ns, base, metadata := (Entries.flagged "interface").located span } : Definition).flag
      "interface" = true := by
  cases span with
  | none => rfl
  | some span => rfl

/-- Both tables are the same in all namespaces. -/
structure SameTables (first second : Registry) : Prop where
  definitions : ∀ ns base, second.definition? ns base = first.definition? ns base
  interfaces : ∀ ns base, second.interface? ns base = first.interface? ns base

namespace SameTables

theorem update (same : first.SameTables second) (ns : String) {change : Namespace → Namespace}
    (definitions : ∀ space, (change space).definitions = space.definitions)
    (interfaces : ∀ space, (change space).interfaces = space.interfaces) :
    first.SameTables (second.update ns change) where
  definitions other base := (definition?_update definitions).trans (same.definitions other base)
  interfaces other base := (interface?_update interfaces).trans (same.interfaces other base)

theorem setCurrent (ns : String) : first.SameTables (first.setCurrent ns) where
  definitions _ _ := definition?_update fun _ => rfl
  interfaces _ _ := interface?_update fun _ => rfl

theorem register (declaration : Declaration) :
    first.SameTables (declaration.register ns first) := by
  rw [declaration.register_eq]
  exact (setCurrent ns).update ns (fun _ => rfl) fun _ => rfl

theorem declared (same : first.SameTables second) (declared : first.interface? ns base ≠ none) :
    second.interface? ns base ≠ none := by
  rw [same.interfaces]
  exact declared

end SameTables

namespace InStep

theorem of_same (inStep : first.InStep ns base) (same : first.SameTables second) :
    second.InStep ns base := by
  intro methods declared
  rw [same.interfaces] at declared
  rw [same.definitions]
  exact inStep methods declared

/-- A name without methods may be defined as anything. -/
theorem define (inStep : first.InStep ns base)
    (added : first.addDefinition home name metadata = .ok (previous, second))
    (free : ns = home → base = name → first.interface? ns base = none) :
    second.InStep ns base := by
  intro methods declared
  rw [interface?_addDefinition added] at declared
  rw [definition?_addDefinition added]
  split
  next here =>
    rw [free here.1 here.2] at declared
    contradiction
  next => exact inStep methods declared

theorem restore (inStep : third.InStep ns base)
    (free : ns = home → base = name → third.interface? ns base = none) :
    (third.restoreDefinition home name previous).InStep ns base := by
  intro methods declared
  rw [interface?_restoreDefinition] at declared
  rw [definition?_restoreDefinition]
  split
  next here =>
    rw [free here.1 here.2] at declared
    contradiction
  next => exact inStep methods declared

/-- A declaration writes to both tables, whatever they held. -/
theorem declared {span : Option Span}
    (added : first.addDefinition ns base ((Entries.flagged "interface").located span) =
      .ok (previous, second)) (methods : List String) :
    (second.addInterface ns base methods).InStep ns base := by
  intro _ _
  have found : (second.addInterface ns base methods).definition? ns base =
      second.definition? ns base := definition?_update fun _ => rfl
  rw [found, definition?_addDefinition added, if_pos ⟨rfl, rfl⟩]
  exact ⟨_, rfl, flag_located ns base span⟩

theorem declareInterface (inStep : first.InStep ns base) {span : Option Span}
    (added : first.addDefinition home name ((Entries.flagged "interface").located span) =
      .ok (previous, second)) (methods : List String) :
    (second.addInterface home name methods).InStep ns base := by
  by_cases here : ns = home ∧ base = name
  · obtain ⟨rfl, rfl⟩ := here
    exact declared added methods
  · intro others found
    have kept : (second.addInterface home name methods).definition? ns base =
        second.definition? ns base := definition?_update fun _ => rfl
    rw [interface?_addInterface, if_neg here, interface?_addDefinition added] at found
    rw [kept, definition?_addDefinition added, if_neg here]
    exact inStep others found

end InStep

theorem Fresh.inStep {registry : Registry} (fresh : registry.Fresh) :
    registry.InStep ns base := by
  intro methods declared
  rw [fresh.no_interface] at declared
  contradiction

end Registry

/-- The special form that writes an interface is its declaration. -/
theorem exists_of_ownWrite?_interface {items : List Form} {base : String}
    (written : Form.ownWrite? items = some (.interface base)) :
    ∃ head args name, items = head :: args ∧ Analyzer.special? head = some .defInterface ∧
      args.head?.bind Form.plainSymbol? = some name ∧ name.base = base := by
  cases items with
  | nil => contradiction
  | cons head args =>
    obtain ⟨form, special, wrote⟩ := Option.bind_eq_some_iff.mp written
    cases form with
    | defInterface =>
      obtain ⟨base, found, same⟩ := Option.map_eq_some_iff.mp wrote
      obtain ⟨name, plain, rfl⟩ := Option.map_eq_some_iff.mp found
      exact ⟨head, args, name, rfl, special, plain, Write.interface.inj same⟩
    | define | defStruct | defException =>
      obtain ⟨_, _, impossible⟩ := Option.map_eq_some_iff.mp wrote
      contradiction
    | ns | inNs => cases Option.some.inj wrote
    | _ => contradiction

theorem registry_of_gives_analyzeDefInterface {args : List Form} {span : Option Span}
    {scope : Scope} {s t : State} {node : Node} {name : Symbol}
    (named : args.head?.bind Form.plainSymbol? = some name)
    (run : Gives (analyzeDefInterface args span scope) s node t) :
    ∃ previous registry methods, s.registry.addDefinition s.registry.current name.base
        ((Entries.flagged "interface").located span) = .ok (previous, registry) ∧
      t.registry = registry.addInterface s.registry.current name.base methods := by
  unfold analyzeDefInterface at run
  split at run
  · exact (not_gives_fail run).elim
  · simp only [gives_bind, gives_pure, gives_ofExcept, gives_registry, gives_define,
      gives_changeRegistry] at run
    obtain ⟨other, _, ⟨read, rfl⟩, methods, _, ⟨_, rfl⟩, _, _, ⟨rfl, rfl⟩, previous, _,
      ⟨registry, added, rfl⟩, _, _, rfl, _, rfl⟩ := run
    obtain rfl : name = other := Option.some.inj (named.symm.trans (definedName_eq_ok read))
    exact ⟨previous, registry, _, added, rfl⟩

section Unhosted

variable {analyzer : Analyzer} (unhosted : analyzer.host = .none)

include unhosted

/-- In a locked registry, a name that is defined or taken back has no methods. -/
theorem tracks_inStep (ns base : String) : Tracks analyzer fun _ s t =>
    s.registry.Locked ∧ s.registry.InStep ns base →
      s.registry.Grows t.registry ∧ t.registry.InStep ns base where
  toSteady := .between_registries
    (fun first second => first.Locked ∧ first.InStep ns base →
      first.Grows second ∧ second.InStep ns base) unhosted
    (fun _ start => ⟨.refl start.1, start.2⟩) fun earlier later start => by
      obtain ⟨grows, inStep⟩ := earlier start
      obtain ⟨more, inStepLater⟩ := later ⟨grows.locked, inStep⟩
      exact ⟨grows.trans more, inStepLater⟩
  change _ change start := by
    obtain ⟨locked, inStep⟩ := start
    cases change with
    | define added =>
      have free := locked.covers (Registry.Grows.absent locked added)
      exact ⟨.define locked added, inStep.define added fun here same => here ▸ same ▸ free⟩
    | interface methods added =>
      exact ⟨.declareInterface locked added methods, inStep.declareInterface added methods⟩
    | declare read => exact ⟨.register locked _, inStep.of_same (.register _)⟩
    | switch valid => exact ⟨.setCurrent locked _, inStep.of_same (.setCurrent _)⟩
  undo {_ s t name metadata previous registry} _ added kept start := by
    obtain ⟨locked, inStep⟩ := start
    have free := locked.covers (Registry.Grows.absent locked added)
    have defined := Registry.Grows.define locked added
    have start : registry.Locked ∧ registry.InStep ns base :=
      ⟨defined.locked, inStep.define added fun here same => here ▸ same ▸ free⟩
    obtain ⟨grows, inStepLater⟩ := kept start
    have present : registry.definition? s.registry.current name ≠ none := by
      rw [Registry.definition?_addDefinition added, if_pos ⟨rfl, rfl⟩]
      exact Option.some_ne_none _
    have still : t.registry.interface? s.registry.current name = none := by
      rw [grows.interface present, Registry.interface?_addDefinition added]
      exact free
    exact ⟨.undo locked added grows,
      inStepLater.restore fun here same => here ▸ same ▸ still⟩

/-- Definitions of other names do not matter. -/
theorem permits_inStep (ns base : String) : Permits analyzer (· ≠ .definition base) fun _ s t =>
    s.registry.InStep ns base → t.registry.InStep ns base where
  toSteady := .between_registries
    (fun first second => first.InStep ns base → second.InStep ns base) unhosted (fun _ => id)
    fun earlier later start => later (earlier start)
  change allowed change inStep := by
    cases change with
    | define added => exact inStep.define added fun _ same => absurd (same ▸ rfl) allowed
    | interface methods added => exact inStep.declareInterface added methods
    | declare read => exact inStep.of_same (.register _)
    | switch valid => exact inStep.of_same (.setCurrent _)
  undo allowed added kept inStep :=
    (kept (inStep.define added fun _ same => absurd (same ▸ rfl) allowed)).restore
      fun _ same => absurd (same ▸ rfl) allowed

/-- Nor do definitions in another namespace, as long as there is no switch. -/
theorem permits_inStep_elsewhere (ns base : String) : Permits analyzer (· ≠ .switch) fun _ s t =>
    s.registry.current ≠ ns ∧ s.registry.InStep ns base →
      t.registry.current = s.registry.current ∧ t.registry.InStep ns base where
  toSteady := .between_registries
    (fun first second => first.current ≠ ns ∧ first.InStep ns base →
      second.current = first.current ∧ second.InStep ns base) unhosted
    (fun _ start => ⟨rfl, start.2⟩) fun earlier later start => by
      obtain ⟨same, inStep⟩ := earlier start
      obtain ⟨sameLater, inStepLater⟩ := later ⟨same ▸ start.1, inStep⟩
      exact ⟨sameLater.trans same, inStepLater⟩
  change allowed change start := by
    obtain ⟨elsewhere, inStep⟩ := start
    cases change with
    | define added =>
      exact ⟨Registry.current_addDefinition added,
        inStep.define added fun here => absurd here.symm elsewhere⟩
    | interface methods added =>
      have same := Registry.current_addDefinition added
      exact ⟨same, inStep.declareInterface added methods⟩
    | declare read => contradiction
    | switch valid => contradiction
  undo _ added kept start := by
    obtain ⟨elsewhere, inStep⟩ := start
    have same := Registry.current_addDefinition added
    obtain ⟨sameLater, inStepLater⟩ := kept ⟨same ▸ elsewhere,
      inStep.define added fun here => absurd here.symm elsewhere⟩
    exact ⟨sameLater.trans same, inStepLater.restore fun here => absurd here.symm elsewhere⟩

/-- What has methods goes on to have some. -/
theorem tracks_declared : Tracks analyzer fun _ s t =>
    ∀ ns base, s.registry.interface? ns base ≠ none → t.registry.interface? ns base ≠ none where
  toSteady := .between_registries
    (fun first second => ∀ ns base, first.interface? ns base ≠ none →
      second.interface? ns base ≠ none) unhosted
    (fun _ _ _ => id) fun earlier later ns base declared =>
      later ns base (earlier ns base declared)
  change _ change ns base declared := by
    cases change with
    | define added =>
      rw [Registry.interface?_addDefinition added]
      exact declared
    | interface methods added =>
      rw [Registry.interface?_addInterface]
      split
      · exact Option.some_ne_none _
      · rw [Registry.interface?_addDefinition added]
        exact declared
    | declare read => exact (Registry.SameTables.register _).declared declared
    | switch valid => exact (Registry.SameTables.setCurrent _).declared declared
  undo _ added kept ns base declared := by
    rw [Registry.interface?_restoreDefinition]
    refine kept ns base ?_
    rw [Registry.interface?_addDefinition added]
    exact declared

/-- The interfaces of a struct in the tree have methods after the analysis. -/
theorem declares_of_struct {form : Form} {s t : State} {root node : Node} {trail : List Place}
    {home : String} {name : Symbol} {fields : List Symbol}
    {interfaces : List (Implementation Node)} {implementation : Implementation Node}
    (run : Gives (analyzer.analyzeTopLevel form) s root t) (leads : root.Leads trail node)
    (shape : node.shape = .defStruct home name fields interfaces)
    (member : implementation ∈ interfaces) : t.registry.Declares implementation.interface := by
  have between := (Builds.sound_analyze (constructs_between (tracks_declared unhosted)) run).holds
  have resolved : .resolves implementation.interface ∈ node.shape.steps node.scope := by
    rw [shape]
    exact List.mem_flatMap.mpr ⟨implementation, member, List.mem_cons_self⟩
  obtain ⟨u, _, later, ns, base, methods, declared, named⟩ :=
    between.declares trail node _ leads resolved
  have still : t.registry.interface? ns base ≠ none := by
    refine later ns base ?_
    rw [declared]
    exact Option.some_ne_none methods
  obtain ⟨others, found⟩ := Option.ne_none_iff_exists'.mp still
  exact ⟨ns, base, others, found, named⟩

/-- The form may define the name as something other than an interface: it holds such a definition,
and it starts in the namespace or switches. -/
def Form.MayDefine (ns base : String) (registry : Registry) (form : Form) : Prop :=
  .definition base ∈ form.writes ∧ (registry.current = ns ∨ .switch ∈ form.writes)

instance (ns base : String) (registry : Registry) (form : Form) :
    Decidable (form.MayDefine ns base registry) := inferInstanceAs (Decidable (_ ∧ _))

/-- The form declares an interface of the name, and is accepted. -/
structure Analyzer.DeclaresInterface (analyzer : Analyzer) (ns base : String) (registry : Registry)
    (call : Form × NameSupply) : Prop where
  here : registry.current = ns
  written : ∃ items span metadata, call.1 = .list items span metadata ∧
    Form.ownWrite? items = some (.interface base)
  accepted : ∃ node t,
    Gives (analyzer.analyzeTopLevel call.1) { registry, names := call.2 } node t

/-- In a session from this registry on, an interface of the name is not left behind: redefinition is
refused, or whatever may define the name otherwise is followed by a declaration of the interface. -/
def Analyzer.Reserves (analyzer : Analyzer) (registry : Registry)
    (calls : List (Form × NameSupply)) (ns base : String) : Prop :=
  registry.allowRedefinition = false ∨
    ∀ i call, calls[i]? = some call →
      call.1.MayDefine ns base (analyzer.session (calls.take i) registry) →
      ∃ j declaring, i < j ∧ calls[j]? = some declaring ∧
        analyzer.DeclaresInterface ns base (analyzer.session (calls.take j) registry) declaring

omit unhosted in
theorem Analyzer.session_concat {registry : Registry} {before : List (Form × NameSupply)}
    {call : Form × NameSupply} :
    analyzer.session (before ++ [call]) registry = (analyzer.analyzeTopLevel call.1
      { registry := analyzer.session before registry, names := call.2 }).2.registry := by
  rw [session, List.foldl_append]
  rfl

omit unhosted in
theorem Analyzer.session_append {registry : Registry} {before : List (Form × NameSupply)}
    {form : Form} {names : NameSupply} {root : Node} {t : State}
    (run : Gives (analyzer.analyzeTopLevel form)
      { registry := analyzer.session before registry, names } root t) :
    analyzer.session (before ++ [(form, names)]) registry = t.registry := by
  rw [session_concat]
  exact congrArg (fun outcome => outcome.2.registry) run

omit unhosted in
theorem Analyzer.DeclaresInterface.inStep {registry : Registry} {ns base : String}
    {call : Form × NameSupply} (declares : analyzer.DeclaresInterface ns base registry call) :
    (analyzer.analyzeTopLevel call.1 { registry, names := call.2 }).2.registry.InStep ns base := by
  obtain ⟨form, names⟩ := call
  obtain ⟨rfl, ⟨items, span, metadata, rfl, written⟩, node, t, run⟩ := declares
  obtain ⟨head, args, name, rfl, special, named, rfl⟩ := exists_of_ownWrite?_interface written
  obtain ⟨expand, depth, analyzed⟩ :=
    analyzer.analyze_eq_analyzeForm (.list (head :: args) span metadata) .top
  have moved : (analyzer.analyzeTopLevel (.list (head :: args) span metadata)
      { registry, names }).2 = t := congrArg Prod.snd run
  rw [Analyzer.analyzeTopLevel, analyzed] at run
  simp only [Analyzer.analyzeForm, special] at run
  obtain ⟨previous, second, methods, added, same⟩ :=
    registry_of_gives_analyzeDefInterface named run
  rw [moved, same]
  exact .declared added methods

/-- What cannot define the name otherwise keeps the tables in step. -/
theorem inStep_of_not_mayDefine {registry : Registry} {ns base : String}
    {call : Form × NameSupply} (inStep : registry.InStep ns base)
    (harmless : ¬ call.1.MayDefine ns base registry) :
    (analyzer.analyzeTopLevel call.1 { registry, names := call.2 }).2.registry.InStep ns base := by
  by_cases defines : .definition base ∈ call.1.writes
  · have apart : registry.current ≠ ns ∧ .switch ∉ call.1.writes :=
      not_or.mp fun either => harmless ⟨defines, either⟩
    have own : call.1.WritesOnly (· ≠ .switch) := fun write written same => apart.2 (same ▸ written)
    exact ((permits_inStep_elsewhere unhosted ns base).of_analyze unhosted own
      { registry, names := call.2 } ⟨apart.1, inStep⟩).2
  · have own : call.1.WritesOnly (· ≠ .definition base) :=
      fun write written same => defines (same ▸ written)
    exact (permits_inStep unhosted ns base).of_analyze unhosted own
      { registry, names := call.2 } inStep

/-- Behind the last call that may define the name otherwise, the interface is declared anew. -/
theorem session_inStep_of_declared {registry : Registry} (fresh : registry.Fresh)
    {calls : List (Form × NameSupply)} {ns base : String}
    (followed : ∀ i call, calls[i]? = some call →
      call.1.MayDefine ns base (analyzer.session (calls.take i) registry) →
      ∃ j declaring, i < j ∧ calls[j]? = some declaring ∧
        analyzer.DeclaresInterface ns base (analyzer.session (calls.take j) registry) declaring) :
    (analyzer.session calls registry).InStep ns base := by
  induction calls using List.reverseRecOn with
  | nil => exact fresh.inStep
  | append_singleton before last ih =>
    rw [Analyzer.session_concat]
    by_cases declares : analyzer.DeclaresInterface ns base (analyzer.session before registry) last
    · exact declares.inStep
    have beyond {j : Nat} (outside : before.length < j) : (before ++ [last])[j]? = none := by
      rw [List.getElem?_eq_none_iff, List.length_append]
      exact outside
    refine inStep_of_not_mayDefine unhosted (ih ?_) ?_
    · intro i call found may
      have early : i < before.length := (List.getElem?_eq_some_iff.mp found).1
      obtain ⟨j, declaring, later, listed, given⟩ := followed i call
        (by rw [List.getElem?_append_left early, found])
        (by rw [List.take_append_of_le_length (Nat.le_of_lt early)]; exact may)
      rcases Nat.lt_trichotomy j before.length with inside | rfl | outside
      · rw [List.getElem?_append_left inside] at listed
        rw [List.take_append_of_le_length (Nat.le_of_lt inside)] at given
        exact ⟨j, declaring, later, listed, given⟩
      · rw [List.getElem?_concat_length] at listed
        rw [List.take_left] at given
        exact (declares (Option.some.inj listed ▸ given)).elim
      · rw [beyond outside] at listed
        contradiction
    · intro may
      obtain ⟨j, declaring, later, listed, _⟩ := followed before.length last
        List.getElem?_concat_length (by rwa [List.take_left])
      rw [beyond later] at listed
      contradiction

theorem session_inStep {registry : Registry} (fresh : registry.Fresh)
    {calls : List (Form × NameSupply)} {ns base : String}
    (reserved : analyzer.Reserves registry calls ns base) :
    (analyzer.session calls registry).InStep ns base := by
  rcases reserved with refuses | followed
  · have kept := calls.foldlRecOn
      (motive := fun registry => registry.Locked ∧ registry.InStep ns base)
      (fun registry call =>
        (analyzer.analyzeTopLevel call.1 { registry, names := call.2 }).2.registry)
      ⟨fresh.locked refuses, fresh.inStep⟩ fun registry start call _ => by
        have kept := (tracks_inStep unhosted ns base).follows_analyze call.1 .top
          { registry, names := call.2 } start
        exact ⟨kept.1.locked, kept.2⟩
    exact kept.2
  · exact session_inStep_of_declared unhosted fresh followed

theorem Analyzer.session_made {registry : Registry} (fresh : registry.Fresh)
    {calls : List (Form × NameSupply)} : (analyzer.session calls registry).Made :=
  calls.foldlRecOn _ fresh.made fun registry made call _ =>
    (tracks_made unhosted).follows_analyze call.1 .top { registry, names := call.2 } made

end Unhosted

/-- After a session, what has methods is defined as an interface, provided redefinition is
refused or every form that may define the name otherwise is followed by a declaration of the
interface. Under the same condition, a symbol that is taken for an interface denotes one. What the
structs of the last form implement has methods, and so is defined as an interface if the condition
holds of it. -/
theorem interfaces_in_step {analyzer : Analyzer} (unhosted : analyzer.host = .none)
    {registry : Registry} (fresh : registry.Fresh) (calls : List (Form × NameSupply)) :
    (∀ ns base methods, analyzer.Reserves registry calls ns base →
      (analyzer.session calls registry).interface? ns base = some methods →
      ∃ definition, (analyzer.session calls registry).definition? ns base = some definition ∧
        definition.flag "interface" = true) ∧
    (∀ symbol definition methods,
      analyzer.Reserves registry calls definition.ns definition.base →
      Struct.interface? analyzer.settings.coreNamespace (analyzer.session calls registry) symbol =
        .ok (definition, methods) →
      definition.flag "interface" = true) ∧
    (∀ before form names root t, calls = before ++ [(form, names)] →
      Gives (analyzer.analyzeTopLevel form)
        { registry := analyzer.session before registry, names } root t →
      ∀ trail node home name fields interfaces, root.Leads trail node →
        node.shape = .defStruct home name fields interfaces →
        ∀ implementation ∈ interfaces, ∃ ns base methods,
          implementation.interface = platformName ns base ∧
          t.registry.interface? ns base = some methods ∧
          (analyzer.Reserves registry calls ns base → ∃ definition,
            t.registry.definition? ns base = some definition ∧
            definition.flag "interface" = true)) := by
  refine ⟨fun ns base methods reserved => session_inStep unhosted fresh reserved methods, ?_, ?_⟩
  · intro symbol definition methods reserved looked
    obtain ⟨resolved, declared⟩ := Struct.interface?_eq_ok looked
    have found := ((Analyzer.session_made unhosted fresh).definition?_of_global? resolved).1
    obtain ⟨other, same, flagged⟩ :=
      session_inStep unhosted fresh reserved methods declared
    obtain rfl := Option.some.inj (found.symm.trans same)
    exact flagged
  · rintro before form names root t rfl run trail node home name fields interfaces leads shape
      implementation member
    obtain ⟨ns, base, methods, declared, named⟩ :=
      declares_of_struct unhosted run leads shape member
    refine ⟨ns, base, methods, named, declared, fun reserved => ?_⟩
    have inStep := session_inStep unhosted fresh reserved
    rw [Analyzer.session_append run] at inStep
    exact inStep methods declared

/-- The form `(def name 1)`. -/
def Form.oneNamed (name : String) : Form :=
  .list [.plainSymbol "def", .plainSymbol name, .int 1] none []

/-- The form `(defstruct* box [] shape (method [this] 1))`. -/
def Form.boxStruct (method : String) : Form :=
  .list [.plainSymbol "defstruct*", .plainSymbol "box", .vector [] none [], .plainSymbol "shape",
    .list [.plainSymbol method, .vector [.plainSymbol "this"] none [], .int 1] none []] none []

/-- A registry that allows redefinition. -/
def Registry.redefinable : Registry := .ofSettings { allowRedefinition := true }

/-- An interface, another definition of its name, the interface once more, and a definition of the
name in another namespace. -/
def Form.redeclaration : List (Form × NameSupply) :=
  [(.shapeInterface "area", {}), (.oneNamed "shape", {}), (.shapeInterface "width", {}),
    (.switchTo "other", {}), (.oneNamed "shape", {}), (.switchTo "user", {})]

set_option maxRecDepth 10000 in
/-- A struct implements the interface as it was declared last. -/
theorem interfaces_in_step_redeclared : ∃ root t,
    Gives (({} : Analyzer).analyzeTopLevel (.boxStruct "width"))
      { registry := ({} : Analyzer).session Form.redeclaration .redefinable } root t ∧
    t.registry.interface? "user" "shape" = some ["width"] ∧
    ∃ definition, t.registry.definition? "user" "shape" = some definition ∧
      definition.flag "interface" = true := by
  obtain ⟨root, t, run, declared⟩ : ∃ root t,
      Gives (({} : Analyzer).analyzeTopLevel (.boxStruct "width"))
        { registry := ({} : Analyzer).session Form.redeclaration .redefinable } root t ∧
      t.registry.interface? "user" "shape" = some ["width"] := ⟨_, _, rfl, rfl⟩
  have fresh : Registry.redefinable.Fresh := .ofSettings _
  have reserved : ({} : Analyzer).Reserves .redefinable
      (Form.redeclaration ++ [(Form.boxStruct "width", ({} : NameSupply))]) "user" "shape" := by
    refine .inr fun i call found may => ?_
    match i, found with
    | 1, _ =>
      exact ⟨2, (.shapeInterface "width", {}), by decide, rfl, by decide +kernel,
        ⟨_, _, _, rfl, rfl⟩, exists_gives_of_isOk (by decide +kernel)⟩
    | 0, rfl | 2, rfl | 3, rfl | 4, rfl | 5, rfl | 6, rfl => exact absurd may (by decide +kernel)
  obtain ⟨inStep, _⟩ := @interfaces_in_step {} rfl _ fresh
    (Form.redeclaration ++ [(Form.boxStruct "width", ({} : NameSupply))])
  rw [Analyzer.session_append run] at inStep
  exact ⟨root, t, run, declared, inStep "user" "shape" ["width"] reserved declared⟩

/-- The registry after an interface was defined as something else. -/
def Registry.shapeRedefined : Registry :=
  ({} : Analyzer).session [(.shapeInterface "area", {}), (.oneNamed "shape", {})] .redefinable

set_option maxRecDepth 10000 in
/-- An interface that is defined as something else keeps its methods, and a struct that
implements it is accepted. -/
theorem interface_outlives_definition : ∃ definition root t,
    Registry.shapeRedefined.interface? "user" "shape" = some ["area"] ∧
    Registry.shapeRedefined.definition? "user" "shape" = some definition ∧
    definition.flag "interface" = false ∧
    Gives (({} : Analyzer).analyzeTopLevel (.boxStruct "area"))
      { registry := .shapeRedefined } root t :=
  ⟨_, _, _, rfl, rfl, rfl, rfl⟩

end LispFront
