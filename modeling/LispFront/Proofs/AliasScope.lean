import LispFront.Proofs.Locality
import LispFront.Proofs.Registry
import LispFront.Proofs.Termination

/-! The short names and referred names of a namespace play a part only while it is the current one.
So an analysis that switches to no other namespace cannot tell apart registries that differ in those
of other namespaces (`foreign_aliases_unseen`). -/

namespace LispFront

namespace Registry

variable {first second : Registry} {registry : Registry} {ns other short base : String}
variable {change : Namespace → Namespace}

/-- A table that a change leaves alone is the same after it in every namespace. -/
theorem table_update {α : Type} (table : Namespace → Table α)
    (kept : ∀ space, table (change space) = table space) :
    table ((registry.update ns change).space other) = table (registry.space other) := by
  rw [space_update]
  split
  next same => rw [kept, same]
  next => rfl

/-- Two registries with the same definitions and interfaces everywhere, and the same short names
and referred names in the namespace that is current in both. -/
structure LooksLike (first second : Registry) : Prop where
  current : first.current = second.current
  allows : first.allowRedefinition = second.allowRedefinition
  definition : ∀ ns base, first.definition? ns base = second.definition? ns base
  interface : ∀ ns base, first.interface? ns base = second.interface? ns base
  classAlias : ∀ short,
    first.classAlias? first.current short = second.classAlias? second.current short
  namespaceAlias : ∀ short,
    first.namespaceAlias? first.current short = second.namespaceAlias? second.current short
  refer : ∀ base, first.refer? first.current base = second.refer? second.current base

namespace LooksLike

/-- What is written to other tables of another namespace makes no difference. -/
theorem elsewhere (away : registry.current ≠ ns)
    (definitions : ∀ space, (change space).definitions = space.definitions)
    (interfaces : ∀ space, (change space).interfaces = space.interfaces) :
    registry.LooksLike (registry.update ns change) := by
  have here : (registry.update ns change).space registry.current =
      registry.space registry.current := by rw [space_update, if_neg away]
  refine ⟨rfl, rfl, fun _ _ => ?_, fun _ _ => ?_, fun short => ?_, fun short => ?_, fun base => ?_⟩
  · rw [definition?_update definitions]
  · rw [interface?_update interfaces]
  · rw [classAlias?_eq, classAlias?_eq]
    exact congrArg (fun space => space.classAliases.find? short) here.symm
  · rw [namespaceAlias?_eq, namespaceAlias?_eq]
    exact congrArg (fun space => space.namespaceAliases.find? short) here.symm
  · rw [refer?_eq, refer?_eq]
    exact congrArg (fun space => space.refers.find? base) here.symm

/-- A write that leaves short names alone, and does the same to definitions and interfaces that
are the same, keeps registries alike. -/
theorem update (like : first.LooksLike second) (change : Namespace → Namespace)
    (definitions : ∀ a b : Namespace, a.definitions.find? = b.definitions.find? →
      (change a).definitions.find? = (change b).definitions.find?)
    (interfaces : ∀ a b : Namespace, a.interfaces.find? = b.interfaces.find? →
      (change a).interfaces.find? = (change b).interfaces.find?)
    (classAliases : ∀ space, (change space).classAliases = space.classAliases)
    (namespaceAliases : ∀ space, (change space).namespaceAliases = space.namespaceAliases)
    (refers : ∀ space, (change space).refers = space.refers) :
    (first.update ns change).LooksLike (second.update ns change) where
  current := like.current
  allows := like.allows
  definition other base := by
    have same (ns : String) : (first.space ns).definitions.find? =
        (second.space ns).definitions.find? := funext fun base => by
      rw [← definition?_eq, ← definition?_eq, like.definition]
    rw [definition?_eq, definition?_eq, space_update, space_update]
    split
    · rw [definitions _ _ (same ns)]
    · rw [same]
  interface other base := by
    have same (ns : String) : (first.space ns).interfaces.find? =
        (second.space ns).interfaces.find? := funext fun base => by
      rw [← interface?_eq, ← interface?_eq, like.interface]
    rw [interface?_eq, interface?_eq, space_update, space_update]
    split
    · rw [interfaces _ _ (same ns)]
    · rw [same]
  classAlias short := by
    rw [classAlias?_eq, classAlias?_eq, table_update _ classAliases, table_update _ classAliases,
      ← classAlias?_eq, ← classAlias?_eq]
    exact like.classAlias short
  namespaceAlias short := by
    rw [namespaceAlias?_eq, namespaceAlias?_eq, table_update _ namespaceAliases,
      table_update _ namespaceAliases, ← namespaceAlias?_eq, ← namespaceAlias?_eq]
    exact like.namespaceAlias short
  refer base := by
    rw [refer?_eq, refer?_eq, table_update _ refers, table_update _ refers, ← refer?_eq,
      ← refer?_eq]
    exact like.refer base

theorem withDefinition (like : first.LooksLike second) (metadata : Entries) :
    (first.withDefinition ns base metadata).LooksLike
      (second.withDefinition ns base metadata) := by
  refine like.update _ ?_ (fun _ _ same => same) (fun _ => by rfl) (fun _ => by rfl) fun _ => by rfl
  intro a b same
  funext name
  rw [Table.find?_insert, Table.find?_insert, same]

theorem restoreDefinition (like : first.LooksLike second) (previous : Option Definition) :
    (first.restoreDefinition ns base previous).LooksLike
      (second.restoreDefinition ns base previous) := by
  refine like.update _ ?_ (fun _ _ same => same) (fun _ => by rfl) (fun _ => by rfl) fun _ => by rfl
  intro a b same
  funext name
  cases previous with
  | none => simp only [Table.find?_erase, same]
  | some definition => simp only [Table.find?_insert, same]

theorem addInterface (like : first.LooksLike second) (methods : List String) :
    (first.addInterface ns base methods).LooksLike (second.addInterface ns base methods) := by
  refine like.update _ (fun _ _ same => same) ?_ (fun _ => by rfl) (fun _ => by rfl) fun _ => by rfl
  intro a b same
  funext name
  rw [Table.find?_insert, Table.find?_insert, same]

/-- A definition is refused in both registries or made in both. -/
theorem addDefinition (like : first.LooksLike second) (ns base : String) (metadata : Entries) :
    (∃ fault, first.addDefinition ns base metadata = .error fault ∧
      second.addDefinition ns base metadata = .error fault) ∨
    ∃ previous after later, first.addDefinition ns base metadata = .ok (previous, after) ∧
      second.addDefinition ns base metadata = .ok (previous, later) ∧ after.LooksLike later := by
  unfold Registry.addDefinition
  rw [← like.definition, ← like.allows]
  by_cases refused :
      ((first.definition? ns base).isSome && !first.allowRedefinition) = true
  · simp only [if_pos refused]
    exact .inl ⟨_, rfl, rfl⟩
  · simp only [if_neg refused]
    exact .inr ⟨_, _, _, rfl, rfl, like.withDefinition metadata⟩

theorem lookup? (like : first.LooksLike second) (core : String) (name : Name) :
    first.lookup? core name = second.lookup? core name := by
  unfold Registry.lookup?
  cases name.ns with
  | some ns => simp only [qualifier, like.namespaceAlias, like.definition]
  | none =>
    unfold plainDefinition?
    rw [like.refer, like.current]
    simp only [like.definition]

theorem global? (like : first.LooksLike second) (core : String) (symbol : Symbol) :
    Resolve.global? core first symbol = Resolve.global? core second symbol := by
  simp only [Resolve.global?, like.lookup?, like.current]

theorem classAlias? (like : first.LooksLike second) (symbol : Symbol) :
    Resolve.classAlias? first symbol = Resolve.classAlias? second symbol := by
  simp only [Resolve.classAlias?, like.classAlias]

end LooksLike

end Registry

/-- The states differ at most in the short names of other namespaces. -/
structure State.LooksLike (s t : State) : Prop where
  registry : s.registry.LooksLike t.registry
  names : s.names = t.names
  frames : s.frames = t.frames

theorem State.LooksLike.define {s t : State} (like : s.LooksLike t) (name : Symbol)
    (metadata : Entries) :
    Same State.LooksLike (fun _ => True) (AnalyzeM.define name metadata s)
      (AnalyzeM.define name metadata t) := by
  have current := like.registry.current
  rcases like.registry.addDefinition s.registry.current name.base metadata with
    ⟨fault, refused, alsoRefused⟩ | ⟨previous, after, later, added, alsoAdded, alike⟩
  · have first : Fails (AnalyzeM.define name metadata) s
        { fault, span := name.span, cause := some fault.message } s := by
      unfold AnalyzeM.define Fails
      rw [bind_of_ok (gives_registry.mpr ⟨rfl, rfl⟩), refused]
      rfl
    have second : Fails (AnalyzeM.define name metadata) t
        { fault, span := name.span, cause := some fault.message } t := by
      unfold AnalyzeM.define Fails
      rw [bind_of_ok (gives_registry.mpr ⟨rfl, rfl⟩), ← current, alsoRefused]
      rfl
    rw [first, second]
    exact ⟨rfl, like, fun _ _ => trivial⟩
  · have first : Gives (AnalyzeM.define name metadata) s previous { s with registry := after } :=
      gives_define.mpr ⟨after, added, rfl⟩
    have second : Gives (AnalyzeM.define name metadata) t previous { t with registry := later } :=
      gives_define.mpr ⟨later, current ▸ alsoAdded, rfl⟩
    rw [first, second]
    exact ⟨rfl, ⟨alike, like.names, like.frames⟩, fun _ _ => trivial⟩

theorem mirror_looksLike (core : String) : Mirror core State.LooksLike fun _ => True where
  genuine _ _ := trivial
  names like := like.names
  drawn like _ := ⟨like.registry, rfl, like.frames⟩
  frames like := congrArg _ like.frames
  opened like := ⟨like.registry, like.names, congrArg (· ++ [false]) like.frames⟩
  restarted like frame :=
    ⟨like.registry, like.names, congrArg (fun frames => frames.set frame.id true) like.frames⟩
  current like := like.registry.current
  classAlias like := like.registry.classAlias?
  global like := like.registry.global? core
  interface like := like.registry.interface
  define like := like.define
  undo like _ _ previous := ⟨like.registry.restoreDefinition previous, like.names, like.frames⟩
  note like _ _ methods := ⟨like.registry.addInterface methods, like.names, like.frames⟩

/-- The names of the special forms that switch to a namespace. -/
def Name.switches (name : Name) : Bool :=
  name = SpecialForm.ns.name || name = SpecialForm.inNs.name

theorem Name.eq_of_switches {name : Name} (switches : name.switches = true) :
    name = SpecialForm.ns.name ∨ name = SpecialForm.inNs.name := by
  simpa [Name.switches] using switches

theorem unwritten_switches : Unwritten Name.switches where
  letIn := rfl
  loop := rfl
  qualified _ _ := rfl
  temp number := Bool.eq_false_iff.mpr fun switches => by
    have quiet := unwritten_changesRegistry.temp number
    rcases Name.eq_of_switches switches with same | same
    · rw [same] at quiet
      contradiction
    · rw [same] at quiet
      contradiction

/-- A form that does not mention these names is not headed by one of them. -/
theorem Form.Avoids.not_switching {form : Form} {special : SpecialForm}
    (avoids : form.Avoids Name.switches) (found : form.special? = some special) :
    ¬ (special = .ns ∨ special = .inNs) := by
  unfold Form.special? at found
  split at found
  next head args span metadata =>
    have headAvoids := (Form.avoids_list.mp avoids).1 head List.mem_cons_self
    obtain ⟨symbol, isSymbol, named⟩ := Option.bind_eq_some_iff.mp found
    cases head with
    | symbol name span metadata =>
      obtain rfl := Option.some.inj isSymbol
      have own := (Form.avoids_symbol.mp headAvoids).1
      have same : special.name = name := SpecialForm.name_of_ofName? named
      rw [← same] at own
      rintro (rfl | rfl)
      · contradiction
      · contradiction
    | _ => contradiction
  · contradiction

namespace Analyzer

variable {analyzer : Analyzer} (unhosted : analyzer.host = .none) {form : Form}

include unhosted

theorem alike_descend_looksLike {expand : Visit} (depth : Nat)
    (avoids : form.Avoids Name.switches) :
    Alike State.LooksLike (fun _ => True) (analyzer.descend expand depth)
      (analyzer.descend expand depth) form := by
  have mirror := mirror_looksLike analyzer.settings.coreNamespace
  have hereditary := unwritten_switches.hereditary analyzer.settings.coreNamespace
  induction depth generalizing form with
  | zero => exact fun scope s t like => ⟨rfl, like, fun _ _ => trivial⟩
  | succ depth ih =>
    refine mirror.of_analyzeForm rfl unhosted
      (fun inner prompts => ih (hereditary.prompts avoids prompts)) ?_
    intro special args span scope found switching
    exact absurd switching (avoids.not_switching found)

theorem alike_analyze_looksLike (avoids : form.Avoids Name.switches) :
    Alike State.LooksLike (fun _ => True) analyzer.analyze analyzer.analyze form := by
  obtain ⟨expand, analyzed⟩ := analyzer.analyze_eq_descend
  intro scope
  rw [analyzed]
  exact alike_descend_looksLike unhosted _ avoids scope

end Analyzer

/-- With no host, the analysis of a form without `ns` and `in-ns` gives the same tree or the same
error for two registries that look alike, whatever the short names of other namespaces are.
The registries look alike afterwards, and as many names have been drawn. -/
theorem foreign_aliases_unseen {analyzer : Analyzer} (unhosted : analyzer.host = .none)
    {form : Form} (avoids : form.Avoids Name.switches) {first second : Registry}
    (like : first.LooksLike second) (scope : Scope) (names : NameSupply) (frames : List Bool) :
    (analyzer.analyze form scope { registry := first, names, frames }).1 =
      (analyzer.analyze form scope { registry := second, names, frames }).1 ∧
    (analyzer.analyze form scope { registry := first, names, frames }).2.LooksLike
      (analyzer.analyze form scope { registry := second, names, frames }).2 := by
  have same := Analyzer.alike_analyze_looksLike unhosted avoids scope _ _
    (⟨like, rfl, rfl⟩ : State.LooksLike { registry := first, names, frames }
      { registry := second, names, frames })
  exact ⟨same.result, same.states⟩

/-- A registry whose current namespace has a short name for a host class. -/
def Registry.clocked : Registry :=
  (Registry.ofSettings {}).addClassAlias "user" "Clock" "\\Clock"

/-- The form `(def now (fn [zone] (php/new Clock zone)))`. -/
def Form.clockFunction : Form :=
  .list [.plainSymbol "def", .plainSymbol "now",
    .list [.plainSymbol "fn", .vector [.plainSymbol "zone"] none [],
      .list [.symbol SpecialForm.hostNew.name none [], .plainSymbol "Clock", .plainSymbol "zone"]
        none []] none []] none []

set_option maxRecDepth 10000 in
/-- That another namespace means another class by the short name does not show. -/
theorem foreign_aliases_unseen_clock : ∃ node s t,
    (Registry.clocked.addClassAlias "other" "Clock" "\\Watch").classAlias? "other" "Clock" =
      some "\\Watch" ∧
    Gives (({} : Analyzer).analyze .clockFunction .top) { registry := .clocked } node s ∧
    Gives (({} : Analyzer).analyze .clockFunction .top)
      { registry := Registry.clocked.addClassAlias "other" "Clock" "\\Watch" } node t ∧
    s.LooksLike t := by
  have like : Registry.clocked.LooksLike
      (Registry.clocked.addClassAlias "other" "Clock" "\\Watch") :=
    .elsewhere (by decide) (fun _ => rfl) fun _ => rfl
  obtain ⟨node, s, first⟩ : ∃ node s, Gives (({} : Analyzer).analyze .clockFunction .top)
      { registry := .clocked } node s := ⟨_, _, rfl⟩
  have avoids : Form.clockFunction.Avoids Name.switches := rfl
  obtain ⟨same, states⟩ := @foreign_aliases_unseen {} rfl _ avoids _ _ like .top {} []
  rw [first] at same states
  rcases second : ({} : Analyzer).analyze .clockFunction .top
    { registry := Registry.clocked.addClassAlias "other" "Clock" "\\Watch" } with ⟨result, t⟩
  rw [second] at same states
  subst same
  exact ⟨node, s, t, rfl, first, second, states⟩

end LispFront
