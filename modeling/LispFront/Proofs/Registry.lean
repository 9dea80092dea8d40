import LispFront.Analysis.Declaration

/-! Writing to a table changes one key, and writing to a registry one namespace. `Registry.space` is
what a registry holds for a namespace, so that each look-up is one in a table of a `space`. Taking a
new definition back gives the registry from before it
(`Registry.restoreDefinition_addDefinition`). -/

namespace LispFront

namespace Table

variable {α : Type} {key other : String} {value : α}

theorem lookup_cons (rest : List (String × α)) :
    ((key, value) :: rest).lookup other =
      if other = key then some value else rest.lookup other := by
  by_cases same : other = key
  · simp [same]
  · simp [List.lookup_cons, beq_false_of_ne same, same]

theorem lookup_put (entries : List (String × α)) :
    (put key value entries).lookup other =
      if other = key then some value else entries.lookup other := by
  induction entries with
  | nil => exact lookup_cons []
  | cons entry rest ih =>
    obtain ⟨name, old⟩ := entry
    by_cases here : name = key
    · rw [put, if_pos here, lookup_cons, lookup_cons, here]
      split <;> rfl
    · rw [put, if_neg here, lookup_cons, lookup_cons, ih]
      by_cases same : other = name
      · simp [same, here]
      · simp [same]

/-- A table holds one entry for a key, the one that is found. -/
theorem mem_entries_iff (table : Table α) :
    (key, value) ∈ table.entries ↔ table.find? key = some value := by
  obtain ⟨entries, distinct⟩ := table
  simp only [find?]
  induction entries with
  | nil => simp
  | cons entry rest ih =>
    obtain ⟨name, old⟩ := entry
    obtain ⟨absent, later⟩ := List.nodup_cons.mp distinct
    rw [lookup_cons, List.mem_cons, Prod.mk.injEq]
    by_cases same : key = name
    · subst same
      -- A second entry of the key is what `absent` rules out.
      have unique : (key, value) ∉ rest := fun again =>
        absent (List.mem_map.mpr ⟨(key, value), again, rfl⟩)
      simp [unique, eq_comm]
    · simp [same, ih later]

theorem find?_insert (table : Table α) :
    (table.insert key value).find? other =
      if other = key then some value else table.find? other :=
  lookup_put table.entries

theorem find?_erase (table : Table α) :
    (table.erase key).find? other = if other = key then none else table.find? other := by
  obtain ⟨entries, distinct⟩ := table
  simp only [erase, find?]
  clear distinct
  induction entries with
  | nil => simp
  | cons entry rest ih =>
    obtain ⟨name, old⟩ := entry
    by_cases here : name = key
    · rw [List.filter_cons_of_neg (by simpa using here), ih, lookup_cons, here]
      split <;> rfl
    · rw [List.filter_cons_of_pos (by simpa using here), lookup_cons, lookup_cons, ih]
      by_cases same : other = name
      · simp [same, here]
      · simp [same]

theorem insert_insert (table : Table α) (later : α) :
    (table.insert key value).insert key later = table.insert key later := by
  obtain ⟨entries, distinct⟩ := table
  simp only [insert, mk.injEq]
  clear distinct
  induction entries with
  | nil => simp [put]
  | cons entry rest ih => by_cases here : entry.1 = key <;> simp [put, here, ih]

/-- Writing what is there already changes nothing, not even the order. -/
theorem insert_of_find? {table : Table α} (found : table.find? key = some value) :
    table.insert key value = table := by
  obtain ⟨entries, distinct⟩ := table
  simp only [find?, insert, mk.injEq] at found ⊢
  clear distinct
  induction entries with
  | nil => contradiction
  | cons entry rest ih =>
    obtain ⟨name, old⟩ := entry
    rw [lookup_cons] at found
    by_cases here : name = key
    · rw [if_pos here.symm] at found
      rw [put, if_pos here, here, Option.some.inj found]
    · rw [if_neg (Ne.symm here)] at found
      rw [put, if_neg here, ih found]

theorem erase_insert {table : Table α} (absent : table.find? key = none) :
    (table.insert key value).erase key = table := by
  obtain ⟨entries, distinct⟩ := table
  simp only [find?, insert, erase, mk.injEq] at absent ⊢
  clear distinct
  induction entries with
  | nil => simp [put]
  | cons entry rest ih =>
    obtain ⟨name, old⟩ := entry
    rw [lookup_cons] at absent
    by_cases here : name = key
    · rw [if_pos here.symm] at absent
      contradiction
    · rw [if_neg (Ne.symm here)] at absent
      rw [put, if_neg here, List.filter_cons_of_pos (by simpa using here), ih absent]

/-- The table after the entries have been inserted from left to right. -/
def insertAll (table : Table α) (entries : List (String × α)) : Table α :=
  entries.foldl (fun table entry => table.insert entry.1 entry.2) table

/-- The last entry of a key counts. -/
theorem find?_insertAll (table : Table α) (entries : List (String × α)) :
    (table.insertAll entries).find? key = (entries.reverse.lookup key).or (table.find? key) := by
  induction entries generalizing table with
  | nil => rfl
  | cons entry rest ih =>
    obtain ⟨name, value⟩ := entry
    have later := ih (table.insert name value)
    rw [find?_insert] at later
    rw [List.reverse_cons, List.lookup_append, lookup_cons, Option.or_assoc]
    refine later.trans (congrArg _ ?_)
    split <;> rfl

end Table

namespace Registry

variable {registry after : Registry} {ns other base name short : String} {metadata : Entries}
variable {previous : Option Definition} {change : Namespace → Namespace}

/-- What a registry holds for a namespace: nothing, if it does not have it. -/
def space (registry : Registry) (ns : String) : Namespace :=
  (registry.namespaces.find? ns).getD {}

theorem definition?_eq :
    registry.definition? ns base = (registry.space ns).definitions.find? base := by
  unfold definition? space
  cases registry.namespaces.find? ns <;> rfl

theorem interface?_eq :
    registry.interface? ns base = (registry.space ns).interfaces.find? base := by
  unfold interface? space
  cases registry.namespaces.find? ns <;> rfl

theorem classAlias?_eq :
    registry.classAlias? ns short = (registry.space ns).classAliases.find? short := by
  unfold classAlias? space
  cases registry.namespaces.find? ns <;> rfl

theorem namespaceAlias?_eq :
    registry.namespaceAlias? ns short = (registry.space ns).namespaceAliases.find? short := by
  unfold namespaceAlias? space
  cases registry.namespaces.find? ns <;> rfl

theorem refer?_eq : registry.refer? ns base = (registry.space ns).refers.find? base := by
  unfold refer? space
  cases registry.namespaces.find? ns <;> rfl

theorem space_start (home : String) : (start home).space ns = {} := by
  simp only [space, start, Table.find?_insert]
  split <;> rfl

theorem space_update :
    (registry.update ns change).space other =
      if other = ns then change (registry.space ns) else registry.space other := by
  unfold space update
  rw [Table.find?_insert]
  split <;> rfl

theorem has_update :
    (registry.update ns change).has other = (decide (other = ns) || registry.has other) := by
  unfold has Table.contains update
  rw [Table.find?_insert]
  by_cases same : other = ns <;> simp [same]

theorem update_update (later : Namespace → Namespace) :
    (registry.update ns change).update ns later = registry.update ns (later ∘ change) := by
  simp [update, Table.find?_insert, Table.insert_insert]

/-- Updates of one namespace, one after the other, are one update of it. -/
theorem foldl_update {α : Type} (changes : α → Namespace → Namespace) (entries : List α) :
    entries.foldl (fun registry entry => registry.update ns (changes entry))
        (registry.update ns change) =
      registry.update ns fun space =>
        entries.foldl (fun space entry => changes entry space) (change space) := by
  induction entries generalizing change with
  | nil => rfl
  | cons entry rest ih =>
    rw [List.foldl_cons, update_update, ih]
    rfl

theorem update_of_fixed (present : registry.has ns = true)
    (fixed : change (registry.space ns) = registry.space ns) :
    registry.update ns change = registry := by
  obtain ⟨held, found⟩ := Option.isSome_iff_exists.mp present
  have same : registry.space ns = held := by simp [space, found]
  have kept :
      registry.namespaces.insert ns (change (registry.space ns)) = registry.namespaces := by
    rw [fixed, same]
    exact Table.insert_of_find? found
  unfold update
  rw [← space, kept]

/-- A change that leaves the definitions of a namespace alone is not seen in them. -/
theorem definition?_update (kept : ∀ space, (change space).definitions = space.definitions) :
    (registry.update ns change).definition? other name = registry.definition? other name := by
  rw [definition?_eq, definition?_eq, space_update]
  split
  next same => rw [kept, same]
  next => rfl

theorem interface?_update (kept : ∀ space, (change space).interfaces = space.interfaces) :
    (registry.update ns change).interface? other name = registry.interface? other name := by
  rw [interface?_eq, interface?_eq, space_update]
  split
  next same => rw [kept, same]
  next => rfl

theorem interface?_addInterface {methods : List String} :
    (registry.addInterface ns base methods).interface? other name =
      if other = ns ∧ name = base then some methods else registry.interface? other name := by
  rw [interface?_eq, interface?_eq, addInterface, space_update]
  by_cases inside : other = ns
  · simp [inside, Table.find?_insert]
  · simp [inside]

theorem definition?_restoreDefinition :
    (registry.restoreDefinition ns base previous).definition? other name =
      if other = ns ∧ name = base then previous else registry.definition? other name := by
  rw [definition?_eq, definition?_eq, restoreDefinition, space_update]
  by_cases inside : other = ns
  · cases previous with
    | none => simp [inside, Table.find?_erase]
    | some definition => simp [inside, Table.find?_insert]
  · simp [inside]

theorem interface?_restoreDefinition :
    (registry.restoreDefinition ns base previous).interface? other name =
      registry.interface? other name := interface?_update fun _ => rfl

/-- The registry with a definition in the place of whatever was there. -/
def withDefinition (ns base : String) (metadata : Entries) (registry : Registry) : Registry :=
  registry.update ns fun space =>
    { space with definitions := space.definitions.insert base { ns, base, metadata } }

/-- A definition is added where there is none, or where redefinition is allowed. -/
theorem addDefinition_eq_ok :
    registry.addDefinition ns base metadata = .ok (previous, after) ↔
      (registry.definition? ns base = none ∨ registry.allowRedefinition = true) ∧
      previous = registry.definition? ns base ∧
      after = registry.withDefinition ns base metadata := by
  unfold addDefinition withDefinition
  cases registry.definition? ns base <;> cases registry.allowRedefinition <;>
    simp [eq_comm]

/-- Otherwise it is refused as a duplicate. -/
theorem addDefinition_eq_error {fault : Fault} :
    registry.addDefinition ns base metadata = .error fault ↔
      (registry.definition? ns base).isSome = true ∧ registry.allowRedefinition = false ∧
      fault = .duplicateDefinition ns base := by
  unfold addDefinition
  cases registry.definition? ns base <;> cases registry.allowRedefinition <;>
    simp [eq_comm]

theorem definition?_withDefinition :
    (registry.withDefinition ns base metadata).definition? other name =
      if other = ns ∧ name = base then some { ns, base, metadata }
      else registry.definition? other name := by
  rw [definition?_eq, definition?_eq, withDefinition, space_update]
  by_cases inside : other = ns
  · simp [inside, Table.find?_insert]
  · simp [inside]

theorem current_addDefinition
    (added : registry.addDefinition ns base metadata = .ok (previous, after)) :
    after.current = registry.current := by
  obtain ⟨_, _, rfl⟩ := addDefinition_eq_ok.mp added
  rfl

theorem definition?_addDefinition
    (added : registry.addDefinition ns base metadata = .ok (previous, after)) :
    after.definition? other name =
      if other = ns ∧ name = base then some { ns, base, metadata }
      else registry.definition? other name := by
  obtain ⟨_, _, rfl⟩ := addDefinition_eq_ok.mp added
  exact definition?_withDefinition

/-- A new definition changes nothing that is looked up only if it was there before. -/
theorem definitions_kept_iff
    (added : registry.addDefinition ns base metadata = .ok (previous, after)) :
    (∀ other name, after.definition? other name = registry.definition? other name) ↔
      registry.definition? ns base = some { ns, base, metadata } := by
  constructor
  · intro kept
    rw [← kept, definition?_addDefinition added, if_pos ⟨rfl, rfl⟩]
  · intro found other name
    rw [definition?_addDefinition added]
    split
    next own => rw [own.1, own.2, found]
    next => rfl

theorem interface?_addDefinition
    (added : registry.addDefinition ns base metadata = .ok (previous, after)) :
    after.interface? other name = registry.interface? other name := by
  obtain ⟨_, _, rfl⟩ := addDefinition_eq_ok.mp added
  exact interface?_update fun _ => rfl

theorem restoreDefinition_addDefinition (present : registry.has ns = true)
    (added : registry.addDefinition ns base metadata = .ok (previous, after)) :
    after.restoreDefinition ns base previous = registry := by
  obtain ⟨_, rfl, rfl⟩ := addDefinition_eq_ok.mp added
  unfold restoreDefinition withDefinition
  rw [update_update]
  refine update_of_fixed present ?_
  rw [definition?_eq]
  cases found : (registry.space ns).definitions.find? base with
  | none => simp [Table.erase_insert found]
  | some definition => simp [Table.insert_insert, Table.insert_of_find? found]

/-- The registries there can be: started in a namespace and changed by the operations on
them. Only definitions and their return after a failure touch a definition. -/
inductive Made : Registry → Prop where
  | start (ns : String) : Made (start ns)
  | allow {registry : Registry} (made : Made registry) (allowRedefinition : Bool) :
      Made { registry with allowRedefinition }
  | setCurrent {registry : Registry} (made : Made registry) (ns : String) :
      Made (registry.setCurrent ns)
  | define {registry after : Registry} {ns base : String} {metadata : Entries}
      {previous : Option Definition} (made : Made registry)
      (added : registry.addDefinition ns base metadata = .ok (previous, after)) : Made after
  | restore {registry : Registry} (made : Made registry) (ns base : String)
      (previous : Option Definition)
      (own : ∀ definition ∈ previous, definition.ns = ns ∧ definition.base = base) :
      Made (registry.restoreDefinition ns base previous)
  | note {registry : Registry} (made : Made registry) (ns : String)
      {change : Namespace → Namespace}
      (kept : ∀ space, (change space).definitions = space.definitions) :
      Made (registry.update ns change)

namespace Made

theorem has_current (made : registry.Made) : registry.has registry.current = true := by
  induction made with
  | start ns => simp [has, Registry.start, Table.contains, Table.find?_insert]
  | allow _ _ ih => exact ih
  | @setCurrent registry _ ns _ =>
    have present : (registry.update ns id).has ns = true := by simp [has_update]
    exact present
  | define _ added ih =>
    obtain ⟨_, _, rfl⟩ := addDefinition_eq_ok.mp added
    exact has_update.trans (Bool.or_eq_true_iff.mpr (.inr ih))
  | restore _ ns base previous own ih =>
    exact has_update.trans (Bool.or_eq_true_iff.mpr (.inr ih))
  | note _ ns kept ih => exact has_update.trans (Bool.or_eq_true_iff.mpr (.inr ih))

/-- A definition is found under its own name. -/
theorem filed (made : registry.Made) {definition : Definition}
    (found : registry.definition? ns base = some definition) :
    definition.ns = ns ∧ definition.base = base := by
  induction made with
  | start home =>
    rw [definition?_eq, space_start] at found
    contradiction
  | allow _ _ ih => exact ih found
  | setCurrent _ home ih =>
    exact ih ((definition?_update fun _ => rfl).symm.trans found)
  | define _ added ih =>
    rw [definition?_addDefinition added] at found
    split at found
    next here =>
      obtain rfl := Option.some.inj found
      exact ⟨here.1.symm, here.2.symm⟩
    next => exact ih found
  | restore _ home name previous own ih =>
    rw [definition?_restoreDefinition] at found
    split at found
    next here =>
      obtain ⟨rfl, rfl⟩ := here
      exact own definition found
    next => exact ih found
  | note _ home kept ih =>
    rw [definition?_update kept] at found
    exact ih found

theorem ofSettings (settings : Settings) : (Registry.ofSettings settings).Made :=
  .allow (.note (.start settings.defaultNamespace) settings.coreNamespace fun _ => rfl)
    settings.allowRedefinition

theorem withDefinition (made : registry.Made) (absent : registry.definition? ns base = none) :
    (registry.withDefinition ns base metadata).Made :=
  .define made (addDefinition_eq_ok.mpr ⟨.inl absent, rfl, rfl⟩)

end Made

end Registry

namespace Declaration

/-- A namespace with the names that a declaration gives it. -/
def enrich (declaration : Declaration) (space : Namespace) : Namespace :=
  { space with
    classAliases := space.classAliases.insertAll declaration.classAliases
    namespaceAliases := space.namespaceAliases.insertAll declaration.namespaceAliases
    refers := space.refers.insertAll declaration.refers }

/-- After the switch to its namespace, a declaration is one update of it. -/
theorem register_eq (declaration : Declaration) (ns : String) (registry : Registry) :
    declaration.register ns registry = (registry.setCurrent ns).update ns declaration.enrich := by
  have classes (space : Namespace) :
      declaration.classAliases.foldl (fun space entry =>
        { space with classAliases := space.classAliases.insert entry.1 entry.2 }) space =
      { space with classAliases := space.classAliases.insertAll declaration.classAliases } :=
    List.foldl_hom (fun table => { space with classAliases := table }) fun _ _ => rfl
  have namespaces (space : Namespace) :
      declaration.namespaceAliases.foldl (fun space entry =>
        { space with namespaceAliases := space.namespaceAliases.insert entry.1 entry.2 }) space =
      { space with
        namespaceAliases := space.namespaceAliases.insertAll declaration.namespaceAliases } :=
    List.foldl_hom (fun table => { space with namespaceAliases := table }) fun _ _ => rfl
  have refers (space : Namespace) :
      declaration.refers.foldl (fun space entry =>
        { space with refers := space.refers.insert entry.1 entry.2 }) space =
      { space with refers := space.refers.insertAll declaration.refers } :=
    List.foldl_hom (fun table => { space with refers := table }) fun _ _ => rfl
  -- The switch is an update too, so that the three replays continue one.
  have switch :
      registry.setCurrent ns = Registry.update ns id { registry with current := ns } := rfl
  simp only [register, switch, Registry.addClassAlias, Registry.addNamespaceAlias,
    Registry.addRefer, Registry.foldl_update, Registry.update_update, classes, namespaces, refers]
  rfl

end Declaration

end LispFront
