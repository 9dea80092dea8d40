import LispFront.Proofs.Prompts
import LispFront.Proofs.SubForms

/-! The functions that read a form into its parts report each fault at a form they were given, or at
the form around it. So their errors point into the form at the root if they were given forms of it,
and so do the parts that they hand on. -/

namespace LispFront

variable {root : Form} {args forms : List Form} {span : Option Span}

theorem Form.Inside.of_plainSymbol? {form : Form} {symbol : Symbol} (inside : form.Inside root)
    (found : form.plainSymbol? = some symbol) : symbol.form.Inside root :=
  Form.plainSymbol?_eq_some found ▸ inside

/-- The first of several forms is a place to report at, with one to fall back on. -/
theorem Form.Marks.head (marks : root.Marks span) (inside : ∀ form ∈ forms, form.Inside root) :
    root.Marks ((forms.head?.bind Form.span).or span) := by
  apply marks.or
  cases forms with
  | nil => exact .inl rfl
  | cons form rest => exact (inside form List.mem_cons_self).allows

theorem Binder.reads_header {form : SpecialForm} (marks : root.Marks span)
    (inside : ∀ arg ∈ args, arg.Inside root) :
    Reads root.Blames
      (fun read => Entries.All (Form.Inside · root) read.1 ∧ ∀ form ∈ read.2, form.Inside root)
      (header form args span) := by
  unfold header
  split
  · exact marks.blames
  next items vectorSpan metadata body =>
    obtain ⟨vector, bodyInside⟩ := List.forall_mem_cons.mp inside
    split
    next paired => exact ⟨pairs?_all (fun _ => vector.item_of_vector) paired, bodyInside⟩
    next => exact (vector.marks rfl).blames
  next other body _ => exact (inside other List.mem_cons_self).blames fun _ => rfl

namespace Guarded

/-- The clauses stand in the root. -/
def Parts.Inside (root : Form) (parts : Parts) : Prop :=
  (∀ form ∈ parts.body, form.Inside root) ∧
  (∀ clause ∈ parts.handlers, clause.form.Inside root) ∧
  ∀ clause ∈ parts.cleanup, clause.form.Inside root

theorem reads_clauses (inside : ∀ form ∈ forms, form.Inside root) :
    Reads root.Blames (fun _ => True) (clauses forms) := by
  induction forms with
  | nil => trivial
  | cons form rest ih =>
    obtain ⟨own, others⟩ := List.forall_mem_cons.mp inside
    unfold clauses
    split
    · exact (ih others).bind fun _ _ => trivial
    · split
      · trivial
      · exact (others _ List.mem_cons_self).blames fun _ => rfl
      · exact own.blames fun _ => rfl

theorem reads_parts (inside : ∀ form ∈ forms, form.Inside root) :
    Reads root.Blames (Parts.Inside root) (parts forms) := by
  have behind : ∀ form ∈ forms.dropWhile (fun form => !isClause form), form.Inside root :=
    fun form member => inside form ((List.dropWhile_sublist _).mem member)
  have readable : Reads root.Blames (fun _ => True) (parts forms) :=
    (reads_clauses behind).bind fun _ _ => trivial
  exact readable.given fun _ read _ => parts_all inside read

end Guarded

theorem reads_definedName {form : SpecialForm} (marks : root.Marks span)
    (inside : ∀ arg ∈ args, arg.Inside root) :
    Reads root.Blames (fun name => name.form.Inside root) (definedName form args span) := by
  have readable : Reads root.Blames (fun _ => True) (definedName form args span) := by
    unfold definedName
    split
    · trivial
    · exact (marks.head inside).blames
  exact readable.given fun _ read _ => inside _ (form_mem_of_definedName read)

namespace Definition

theorem reads_parts (marks : root.Marks span) (inside : ∀ arg ∈ args, arg.Inside root) :
    Reads root.Blames (fun read => (∀ form ∈ read.1, form.Inside root) ∧ read.2.Inside root)
      (parts args span) := by
  have readable : Reads root.Blames (fun _ => True) (parts args span) := by
    unfold parts
    split
    · trivial
    · trivial
    · exact marks.blames
  refine readable.given fun read given _ => ?_
  obtain ⟨metadata, init⟩ := mem_of_parts given
  exact ⟨fun form member => inside form (metadata form member), inside _ init⟩

theorem reads_collectMetadata {name : Symbol} {given : Option Form}
    (inside : ∀ form ∈ given, form.Inside root) :
    Reads root.Blames (fun _ => True) (collectMetadata name given span) := by
  cases given with
  | none => trivial
  | some form =>
    have written : Reads root.Blames (fun _ => True) (Entries.ofMetadataForm form) := by
      cases form with
      | str | keyword | map => trivial
      | _ => exact (inside _ rfl).blames fun _ => rfl
    exact written.bind fun _ _ => trivial

end Definition

theorem reads_plainSymbols {fault : Fault} (rejects : ∀ form, fault.rejects form = true)
    (inside : ∀ form ∈ forms, form.Inside root) :
    Reads root.Blames (fun _ => True) (plainSymbols fault forms) := by
  induction forms with
  | nil => trivial
  | cons form rest ih =>
    obtain ⟨own, others⟩ := List.forall_mem_cons.mp inside
    unfold plainSymbols
    split
    · exact (ih others).bind fun _ _ => trivial
    · exact own.blames fun _ => rejects form

namespace InterfaceMethod

theorem reads_ofForm {form : Form} (inside : form.Inside root) :
    Reads root.Blames (fun _ => True) (ofForm form) := by
  unfold ofForm
  split
  next items place metadata =>
    have marks : root.Marks place := inside.marks rfl
    split
    · exact marks.blames
    · split
      next receiver others _ _ tail behind =>
        have vector : (Form.vector (receiver :: others) _ _).Inside root :=
          inside.item_of_list (List.mem_of_mem_drop (behind ▸ List.mem_cons_self))
        refine (reads_plainSymbols (fun _ => rfl) fun _ => vector.item_of_vector).bind fun _ _ => ?_
        split
        · trivial
        · trivial
        · exact marks.blames
      · exact marks.blames
  next => exact inside.blames fun _ => rfl

theorem reads_ofForms (inside : ∀ form ∈ forms, form.Inside root) :
    Reads root.Blames (fun _ => True) (ofForms forms) := by
  induction forms with
  | nil => trivial
  | cons form rest ih =>
    obtain ⟨own, others⟩ := List.forall_mem_cons.mp inside
    exact (reads_ofForm own).bind fun _ _ => (ih others).bind fun _ _ => trivial

end InterfaceMethod

namespace Struct

/-- The list that the method is written as stands in the root. -/
def MethodForm.Inside (root : Form) (method : MethodForm) : Prop :=
  ∃ metadata, (Form.list method.items method.span metadata).Inside root

def Group.Inside (root : Form) (group : Group) : Prop :=
  group.interface.form.Inside root ∧ ∀ method ∈ group.methods, method.Inside root

theorem addMethod_inside {method : MethodForm} {groups more : List Group}
    (own : method.Inside root) (inside : ∀ group ∈ groups, group.Inside root)
    (added : addMethod method groups = some more) : ∀ group ∈ more, group.Inside root := by
  induction groups using addMethod.induct generalizing more with
  | case1 => contradiction
  | case2 group =>
    obtain rfl := Option.some.inj added
    obtain ⟨interface, methods⟩ := inside group List.mem_cons_self
    refine List.forall_mem_singleton.mpr ⟨interface, ?_⟩
    exact List.forall_mem_append.mpr ⟨methods, List.forall_mem_singleton.mpr own⟩
  | case3 group rest _ ih =>
    obtain ⟨first, others⟩ := List.forall_mem_cons.mp inside
    simp only [addMethod] at added
    obtain ⟨later, found, rfl⟩ := Option.map_eq_some_iff.mp added
    exact List.forall_mem_cons.mpr ⟨first, ih others found⟩

theorem reads_group {groups : List Group} (before : ∀ group ∈ groups, group.Inside root)
    (inside : ∀ form ∈ forms, form.Inside root) :
    Reads root.Blames (fun read => ∀ group ∈ read, group.Inside root) (group groups forms) := by
  induction groups, forms using group.induct with
  | case1 groups => exact before
  | case2 groups name span metadata rest ih =>
    obtain ⟨own, others⟩ := List.forall_mem_cons.mp inside
    refine ih (List.forall_mem_append.mpr ⟨before, ?_⟩) others
    exact List.forall_mem_singleton.mpr ⟨own, List.forall_mem_nil _⟩
  | case3 groups items span metadata rest more added ih =>
    obtain ⟨own, others⟩ := List.forall_mem_cons.mp inside
    simp only [group, added]
    exact ih (addMethod_inside ⟨metadata, own⟩ before added) others
  | case4 groups items span metadata rest refused =>
    simp only [group, refused]
    exact ((inside _ List.mem_cons_self).marks rfl).blames
  | case5 groups other rest _ _ =>
    simp only [group]
    exact (inside other List.mem_cons_self).blames fun _ => beq_self_eq_true other.kindName

theorem reads_fields (marks : root.Marks span) (inside : ∀ arg ∈ args, arg.Inside root) :
    Reads root.Blames (fun _ => True) (fields args span) := by
  have behind : ∀ arg ∈ args.drop 1, arg.Inside root := fun arg member =>
    inside arg (List.mem_of_mem_drop member)
  unfold fields
  split
  next items _ _ _ given =>
    have vector := behind _ (given ▸ List.mem_cons_self)
    exact reads_plainSymbols (fun _ => rfl) fun _ => vector.item_of_vector
  next others _ => exact (marks.head behind).blames

theorem reads_methodName {method : MethodForm} {definition : Definition} {declared : List String}
    (inside : method.Inside root) :
    Reads root.Blames (fun _ => True) (methodName method definition declared) := by
  obtain ⟨metadata, list⟩ := inside
  unfold methodName
  split
  · exact (list.marks rfl).blames
  next name found =>
    split
    · trivial
    · obtain ⟨first, listed, plain⟩ := Option.bind_eq_some_iff.mp found
      have own := (list.item_of_list (List.mem_of_head? listed)).of_plainSymbol? plain
      exact own.marks_symbol.blames

end Struct

namespace Resolve

variable {core : String} {registry : Registry} {scope : Scope} {symbol : Symbol}

theorem reads_global? (marks : root.Marks symbol.span) :
    Reads root.Blames (fun _ => True) (global? core registry symbol) := by
  unfold global?
  split
  · split
    · exact marks.blames
    · trivial
  · trivial

theorem reads_shape {ν : Type} (marks : root.Marks symbol.span) :
    Reads root.Blames (fun _ => True)
      (shape core registry scope symbol : Except _ (Shape ν)) := by
  unfold shape
  split
  · trivial
  split
  · trivial
  split
  · trivial
  have globals : Reads root.Blames (fun _ => True) (global? core registry symbol) :=
    reads_global? marks
  split
  next refused =>
    rw [refused] at globals
    exact globals
  · trivial
  · exact marks.blames

theorem reads_expandable? (marks : root.Marks symbol.span) :
    Reads root.Blames (fun _ => True) (expandable? core registry scope symbol) := by
  unfold expandable?
  split
  · trivial
  · exact reads_global? marks

end Resolve

theorem Struct.reads_interface? {core : String} {registry : Registry} {symbol : Symbol}
    (marks : root.Marks symbol.span) :
    Reads root.Blames (fun _ => True) (Struct.interface? core registry symbol) := by
  refine (Resolve.reads_global? marks).bind fun found _ => ?_
  split
  · exact marks.blames
  · split
    · exact marks.blames
    · trivial

theorem Settings.reads_checkNamespace {settings : Settings} {ns : String}
    (marks : root.Marks span) :
    Reads root.Blames (fun _ => True) (settings.checkNamespace ns span) := by
  unfold checkNamespace
  induction Text.segments (· == '.') ns with
  | nil => trivial
  | cons segment rest ih =>
    unfold checkSegments
    split
    · exact marks.blames
    · split
      · exact ih
      · exact marks.blames

namespace Declaration

variable {clause : Form} {settings : Settings}

theorem reads_uses (marks : root.Marks clause.span) (inside : ∀ form ∈ forms, form.Inside root) :
    Reads root.Blames (fun _ => True) (uses clause forms) := by
  fun_induction uses clause forms with
  | case1 => trivial
  | case2 form rest found => exact (inside form List.mem_cons_self).blames fun _ => rfl
  | case3 => trivial
  | case4 => exact marks.blames
  | case5 => exact marks.blames
  | case6 _ _ _ _ _ _ _ _ _ ih =>
    simp only [List.forall_mem_cons] at inside
    exact (ih inside.2.2.2).bind fun _ _ => trivial
  | case7 _ _ _ _ _ _ ih =>
    exact (ih (List.forall_mem_cons.mp inside).2).bind fun _ _ => trivial

theorem reads_referred (inside : ∀ form ∈ forms, form.Inside root) :
    Reads root.Blames (fun _ => True) (referred forms) := by
  induction forms with
  | nil => trivial
  | cons form rest ih =>
    obtain ⟨own, others⟩ := List.forall_mem_cons.mp inside
    unfold referred
    split
    · exact own.blames fun _ => rfl
    · exact (ih others).bind fun _ _ => trivial

theorem reads_option {mark value : Form} (marks : root.Marks clause.span)
    (inside : value.Inside root) :
    Reads root.Blames (fun _ => True) (option clause mark value) := by
  unfold option
  split
  · split
    · exact (reads_referred fun _ => inside.item_of_vector).bind fun _ _ => trivial
    · exact marks.blames
  · split
    · trivial
    · exact marks.blames

theorem reads_options (marks : root.Marks clause.span)
    (inside : ∀ form ∈ forms, form.Inside root) :
    Reads root.Blames (fun _ => True) (options clause forms) := by
  induction forms using options.induct with
  | case1 => trivial
  | case2 => exact marks.blames
  | case3 mark value rest ih =>
    simp only [List.forall_mem_cons] at inside
    refine (reads_option marks inside.2.1).bind fun _ _ => ?_
    exact (ih inside.2.2).bind fun _ _ => trivial

theorem reads_ofRequire (marks : root.Marks clause.span)
    (inside : ∀ form ∈ forms, form.Inside root) :
    Reads root.Blames (fun _ => True) (ofRequire settings clause forms) := by
  unfold ofRequire
  split
  · exact marks.blames
  next target found =>
    obtain ⟨first, listed, plain⟩ := Option.bind_eq_some_iff.mp found
    have own := (inside first (List.mem_of_head? listed)).of_plainSymbol? plain
    refine (Settings.reads_checkNamespace own.marks_symbol).bind fun _ _ => ?_
    have behind : ∀ form ∈ forms.drop 1, form.Inside root := fun form member =>
      inside form (List.mem_of_mem_drop member)
    exact (reads_options marks behind).bind fun _ _ => trivial

theorem reads_files (inside : ∀ form ∈ forms, form.Inside root) :
    Reads root.Blames (fun _ => True) (files forms) := by
  induction forms with
  | nil => trivial
  | cons form rest ih =>
    obtain ⟨own, others⟩ := List.forall_mem_cons.mp inside
    cases form with
    | str path => exact (ih others).bind fun _ _ => trivial
    | _ => exact own.blames fun _ => rfl

theorem reads_ofClause (inside : clause.Inside root) :
    Reads root.Blames (fun _ => True) (ofClause settings clause) := by
  unfold ofClause
  split
  next base args place metadata =>
    have marks : root.Marks place := inside.marks rfl
    have behind : ∀ arg ∈ args, arg.Inside root := fun arg member =>
      inside.item_of_list (List.mem_cons_of_mem _ member)
    split
    · exact (reads_uses marks behind).bind fun _ _ => trivial
    · exact reads_ofRequire marks behind
    · exact (reads_files behind).bind fun _ _ => trivial
    · exact marks.blames
  next => exact inside.blames fun _ => rfl

theorem reads_ofClauses (inside : ∀ form ∈ forms, form.Inside root) :
    Reads root.Blames (fun _ => True) (ofClauses settings forms) := by
  induction forms with
  | nil => trivial
  | cons form rest ih =>
    obtain ⟨own, others⟩ := List.forall_mem_cons.mp inside
    exact (reads_ofClause own).bind fun _ _ => (ih others).bind fun _ _ => trivial

theorem reads_ofArgs (marks : root.Marks span) (inside : ∀ arg ∈ args, arg.Inside root) :
    Reads root.Blames (fun _ => True) (ofArgs settings args span) := by
  unfold ofArgs
  split
  · exact marks.blames
  next name clauses =>
    obtain ⟨own, others⟩ := List.forall_mem_cons.mp inside
    split
    · exact own.blames fun _ => rfl
    next symbol found =>
      have place := (own.of_plainSymbol? found).marks_symbol
      refine (Settings.reads_checkNamespace place).bind fun _ _ => ?_
      exact (reads_ofClauses others).bind fun _ _ => trivial

theorem reads_inNamespace {arg : Form} (inside : arg.Inside root) :
    Reads root.Blames (fun _ => True) (inNamespace arg) := by
  cases arg with
  | str text => trivial
  | list items place metadata =>
    have marks : root.Marks place := inside.marks rfl
    unfold inNamespace
    split
    · trivial
    · split
      · trivial
      · exact marks.blames
    · exact marks.blames
  | symbol name place metadata =>
    have marks : root.Marks place := inside.marks rfl
    unfold inNamespace
    split
    · trivial
    · split
      · trivial
      · exact marks.blames
    · split
      · trivial
      · exact marks.blames
  | _ => exact inside.blames fun _ => rfl

end Declaration

end LispFront
