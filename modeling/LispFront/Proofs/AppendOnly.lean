import LispFront.Proofs.Effects
import LispFront.Proofs.Registry

/-! When redefinition is not allowed, a definition stays as it was first made, and the methods of an
interface with it, whatever is analyzed afterwards and whether or not that succeeds. What carries
the argument is that every interface is also a definition: a second interface of the same name would
have to define that name again. -/

namespace LispFront

namespace Registry

variable {first second third : Registry} {ns base : String} {metadata : Entries}
variable {previous : Option Definition}

/-- Nothing is redefined, and the interfaces are among the definitions. -/
structure Locked (registry : Registry) : Prop where
  refuses : registry.allowRedefinition = false
  covers : ∀ {ns base}, registry.definition? ns base = none → registry.interface? ns base = none

structure Grows (first second : Registry) : Prop where
  locked : second.Locked
  definition : ∀ {ns base definition}, first.definition? ns base = some definition →
    second.definition? ns base = some definition
  interface : ∀ {ns base}, first.definition? ns base ≠ none →
    second.interface? ns base = first.interface? ns base

namespace Grows

theorem refl (locked : first.Locked) : first.Grows first := ⟨locked, id, fun _ => rfl⟩

theorem trans (earlier : first.Grows second) (later : second.Grows third) :
    first.Grows third where
  locked := later.locked
  definition found := later.definition (earlier.definition found)
  interface {ns base} present := by
    obtain ⟨definition, found⟩ := Option.ne_none_iff_exists'.mp present
    have kept : second.definition? ns base ≠ none := by
      rw [earlier.definition found]
      exact Option.some_ne_none definition
    exact (later.interface kept).trans (earlier.interface present)

theorem interface_of_some (locked : first.Locked) (grows : first.Grows second)
    {methods : List String} (found : first.interface? ns base = some methods) :
    second.interface? ns base = some methods := by
  have present : first.definition? ns base ≠ none := by
    intro absent
    rw [locked.covers absent] at found
    contradiction
  rw [grows.interface present, found]

theorem of_same (locked : first.Locked)
    (allows : second.allowRedefinition = first.allowRedefinition)
    (definitions : ∀ ns base, second.definition? ns base = first.definition? ns base)
    (interfaces : ∀ ns base, second.interface? ns base = first.interface? ns base) :
    first.Grows second where
  locked := by
    refine ⟨allows.trans locked.refuses, fun {ns base} absent => ?_⟩
    rw [definitions] at absent
    rw [interfaces]
    exact locked.covers absent
  definition {ns base _} found := (definitions ns base).trans found
  interface {ns base} _ := interfaces ns base

theorem update (locked : first.Locked) {change : Namespace → Namespace}
    (definitions : ∀ space, (change space).definitions = space.definitions)
    (interfaces : ∀ space, (change space).interfaces = space.interfaces) :
    first.Grows (first.update ns change) :=
  of_same locked rfl (fun _ _ => definition?_update definitions) fun _ _ =>
    interface?_update interfaces

theorem setCurrent (locked : first.Locked) (ns : String) : first.Grows (first.setCurrent ns) :=
  of_same locked rfl (fun _ _ => definition?_update fun _ => rfl) fun _ _ =>
    interface?_update fun _ => rfl

theorem foldl {α : Type} {write : Registry → α → Registry} (entries : List α)
    (grows : ∀ {registry : Registry} entry, registry.Locked →
      registry.Grows (write registry entry))
    (locked : first.Locked) : first.Grows (entries.foldl write first) :=
  entries.foldlRecOn write (refl locked) fun _ earlier entry _ =>
    earlier.trans (grows entry earlier.locked)

/-- A declaration writes aliases and names referred to, but no definition. -/
theorem register (locked : first.Locked) (declaration : Declaration) :
    first.Grows (declaration.register ns first) := by
  rw [declaration.register_eq]
  have current := setCurrent locked ns
  exact current.trans (update current.locked (fun _ => rfl) fun _ => rfl)

section Definition

variable (locked : first.Locked)
variable (added : first.addDefinition ns base metadata = .ok (previous, second))

include locked added

theorem absent : first.definition? ns base = none := by
  obtain ⟨absent | allowed, _⟩ := addDefinition_eq_ok.mp added
  · exact absent
  · rw [locked.refuses] at allowed
    contradiction

/-- A definition that is there already is another one than the one added. -/
theorem apart {other name : String} (present : first.definition? other name ≠ none) :
    ¬ (other = ns ∧ name = base) := by
  rintro ⟨rfl, rfl⟩
  exact present (absent locked added)

theorem define : first.Grows second where
  locked := by
    refine ⟨?_, fun {other name} missing => ?_⟩
    · obtain ⟨_, _, rfl⟩ := addDefinition_eq_ok.mp added
      exact locked.refuses
    · rw [definition?_addDefinition added] at missing
      rw [interface?_addDefinition added]
      split at missing
      · contradiction
      · exact locked.covers missing
  definition {other name definition} found := by
    have elsewhere := apart locked added (Option.ne_none_iff_exists'.mpr ⟨definition, found⟩)
    rw [definition?_addDefinition added, if_neg elsewhere]
    exact found
  interface _ := interface?_addDefinition added

theorem declareInterface (methods : List String) :
    first.Grows (second.addInterface ns base methods) := by
  have defined := define locked added
  have definitions {other name : String} :
      (second.addInterface ns base methods).definition? other name =
        second.definition? other name := definition?_update fun _ => rfl
  refine ⟨⟨defined.locked.refuses, fun {other name} missing => ?_⟩, fun found => ?_,
    fun {other name} present => ?_⟩
  · rw [definitions] at missing
    have elsewhere : ¬ (other = ns ∧ name = base) := by
      intro here
      rw [definition?_addDefinition added, if_pos here] at missing
      contradiction
    rw [interface?_addInterface, if_neg elsewhere]
    exact defined.locked.covers missing
  · rw [definitions]
    exact defined.definition found
  · rw [interface?_addInterface, if_neg (apart locked added present)]
    exact defined.interface present

/-- Taking a definition back removes no older one, and leaves no interface without its
definition: while the name was defined, no interface of that name can have come in. -/
theorem undo (grows : second.Grows third) :
    first.Grows (third.restoreDefinition ns base previous) := by
  have before := absent locked added
  have defined := define locked added
  obtain ⟨_, rfl, _⟩ := addDefinition_eq_ok.mp added
  have interfaces {other name : String} :
      (third.restoreDefinition ns base (first.definition? ns base)).interface? other name =
        third.interface? other name := interface?_update fun _ => rfl
  refine ⟨⟨grows.locked.refuses, fun {other name} missing => ?_⟩, fun {other name _} found => ?_,
    fun {other name} present => ?_⟩
  · rw [interfaces]
    rw [definition?_restoreDefinition] at missing
    by_cases here : other = ns ∧ name = base
    · obtain ⟨rfl, rfl⟩ := here
      have present : second.definition? other name ≠ none := by
        rw [definition?_addDefinition added, if_pos ⟨rfl, rfl⟩]
        exact Option.some_ne_none _
      rw [grows.interface present, interface?_addDefinition added]
      exact locked.covers before
    · rw [if_neg here] at missing
      exact grows.locked.covers missing
  · have elsewhere := apart locked added (Option.ne_none_iff_exists'.mpr ⟨_, found⟩)
    rw [definition?_restoreDefinition, if_neg elsewhere]
    exact grows.definition (defined.definition found)
  · rw [interfaces]
    exact (defined.trans grows).interface present

end Definition

end Grows

/-- Registries before any analysis: started or read from settings, and filled with
definitions. -/
inductive Fresh : Registry → Prop where
  | start (ns : String) : Fresh (.start ns)
  | ofSettings (settings : Settings) : Fresh (.ofSettings settings)
  | allow {registry : Registry} (fresh : Fresh registry) (allowRedefinition : Bool) :
      Fresh { registry with allowRedefinition }
  | define {registry after : Registry} {ns base : String} {metadata : Entries}
      {previous : Option Definition} (fresh : Fresh registry)
      (added : registry.addDefinition ns base metadata = .ok (previous, after)) : Fresh after

theorem interface?_start (home : String) : (start home).interface? ns base = none := by
  rw [interface?_eq, space_start]
  rfl

theorem Fresh.no_interface {registry : Registry} (fresh : registry.Fresh) (ns base : String) :
    registry.interface? ns base = none := by
  induction fresh with
  | start home => exact interface?_start home
  | ofSettings settings =>
    exact (interface?_update fun _ => rfl).trans (interface?_start settings.defaultNamespace)
  | allow _ _ ih => exact ih
  | define _ added ih => rw [interface?_addDefinition added, ih]

theorem Fresh.made {registry : Registry} (fresh : registry.Fresh) : registry.Made := by
  induction fresh with
  | start ns => exact .start ns
  | ofSettings settings => exact .ofSettings settings
  | allow _ allowRedefinition ih => exact ih.allow allowRedefinition
  | define _ added ih => exact ih.define added

theorem Fresh.locked {registry : Registry} (fresh : registry.Fresh)
    (refuses : registry.allowRedefinition = false) :
    registry.Locked := ⟨refuses, fun {ns base} _ => fresh.no_interface ns base⟩

end Registry

/-- No move of an analysis takes anything from a locked registry. -/
theorem tracks_grows {analyzer : Analyzer} (unhosted : analyzer.host = .none) :
    Tracks analyzer fun _ s t => s.registry.Locked → s.registry.Grows t.registry where
  toSteady := .between_registries (fun first second => first.Locked → first.Grows second) unhosted
    (fun _ => .refl) fun earlier later locked =>
      (earlier locked).trans (later (earlier locked).locked)
  change _ change locked := by
    cases change with
    | define added => exact .define locked added
    | interface methods added => exact .declareInterface locked added methods
    | declare read => exact .register locked _
    | switch valid => exact .setCurrent locked _
  undo _ added grows locked :=
    .undo locked added (grows (Registry.Grows.define locked added).locked)

namespace Analyzer

/-- Analyzes forms at top level one after the other, each with a supply of names of its
own. A form that fails does not end the session. -/
def session (analyzer : Analyzer) (calls : List (Form × NameSupply)) (registry : Registry) :
    Registry :=
  calls.foldl (fun registry call =>
    (analyzer.analyzeTopLevel call.1 { registry, names := call.2 }).2.registry) registry

theorem session_grows {analyzer : Analyzer} (unhosted : analyzer.host = .none)
    (calls : List (Form × NameSupply)) {registry : Registry} (locked : registry.Locked) :
    registry.Grows (analyzer.session calls registry) :=
  .foldl calls (fun call locked =>
    (tracks_grows unhosted).follows_analyze call.1 .top { registry := _, names := call.2 } locked)
    locked

end Analyzer

/-- In a session that does not allow redefinition, what is defined between two forms is
defined in the same way after all later ones, and an interface keeps its methods. -/
theorem session_append_only {analyzer : Analyzer} (unhosted : analyzer.host = .none)
    {registry : Registry} (fresh : registry.Fresh) (refuses : registry.allowRedefinition = false)
    (before later : List (Form × NameSupply)) :
    (∀ ns base definition,
      (analyzer.session before registry).definition? ns base = some definition →
      (analyzer.session later (analyzer.session before registry)).definition? ns base =
        some definition) ∧
    (∀ ns base methods,
      (analyzer.session before registry).interface? ns base = some methods →
      (analyzer.session later (analyzer.session before registry)).interface? ns base =
        some methods) := by
  have start : registry.Locked := ⟨refuses, fun {ns base} _ => fresh.no_interface ns base⟩
  have between := (Analyzer.session_grows unhosted before start).locked
  have grows := Analyzer.session_grows unhosted later between
  exact ⟨fun _ _ _ found => grows.definition found, fun _ _ _ found =>
    grows.interface_of_some between found⟩

/-- The form `(definterface* shape (method [this]))`. -/
def Form.shapeInterface (method : String) : Form :=
  .list [.plainSymbol "definterface*", .plainSymbol "shape",
    .list [.plainSymbol method, .vector [.plainSymbol "this"] none []] none []] none []

/-- The form `(def x (do (in-ns other) (definterface* shape (width [this])) missing))`, whose
value fails after it has defined something elsewhere. -/
def Form.failingDefinition : Form :=
  .list [.plainSymbol "def", .plainSymbol "x",
    .list [.plainSymbol "do", .list [.plainSymbol "in-ns", .plainSymbol "other"] none [],
      .shapeInterface "width", .plainSymbol "missing"] none []] none []

set_option maxRecDepth 10000 in
/-- Neither a second interface of the name nor a definition that is taken back changes the
first interface. -/
theorem session_append_only_taken_back :
    (({} : Analyzer).session [(.shapeInterface "area", {})] (.ofSettings {})).interface?
      "user" "shape" = some ["area"] ∧
    (({} : Analyzer).session [(.shapeInterface "width", {}), (.failingDefinition, {})]
      (({} : Analyzer).session [(.shapeInterface "area", {})] (.ofSettings {}))).interface?
      "user" "shape" = some ["area"] ∧
    (({} : Analyzer).session [(.shapeInterface "width", {}), (.failingDefinition, {})]
      (({} : Analyzer).session [(.shapeInterface "area", {})] (.ofSettings {}))).interface?
      "other" "shape" = some ["width"] := by
  have declared : (({} : Analyzer).session [(.shapeInterface "area", {})]
      (.ofSettings {})).interface? "user" "shape" = some ["area"] := rfl
  have appends := @session_append_only {} rfl _ (.ofSettings {}) rfl
    [(.shapeInterface "area", {})] [(.shapeInterface "width", {}), (.failingDefinition, {})]
  exact ⟨declared, appends.2 _ _ _ declared, rfl⟩

end LispFront
