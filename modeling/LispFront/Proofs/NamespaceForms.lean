import Mathlib.Data.List.DropRight
import LispFront.Proofs.Interfaces
import LispFront.Proofs.NamespaceNames

/-! `NsForm` is an `ns` form with its parts taken apart. The forms that are read are those that can
be written this way with valid names (`ofArgs_eq_ok`), and their replay into the three tables is one
update of one namespace (`register_eq`). -/

namespace LispFront

namespace Text

/-- The last segment is what stands behind the last mark. -/
theorem lastSegment_eq (isMark : Char → Bool) (text : String) :
    lastSegment isMark text = String.ofList (text.toList.rtakeWhile fun c => !isMark c) := by
  have divided := @List.rdropWhile_append_rtakeWhile _ (fun c => !isMark c) text.toList
  have unmarked : ∀ c ∈ text.toList.rtakeWhile fun c => !isMark c, isMark c = false := by
    intro c member
    simpa using List.mem_rtakeWhile_imp member
  have marked : ∀ some,
      isMark ((text.toList.rdropWhile fun c => !isMark c).getLast some) = true := by
    intro some
    simpa using List.rdropWhile_last_not (fun c => !isMark c) text.toList some
  generalize text.toList.rtakeWhile (fun c => !isMark c) = behind at divided unmarked ⊢
  generalize text.toList.rdropWhile (fun c => !isMark c) = front at divided marked
  rw [lastSegment, segments, segmentChars_eq_splitOnP, ← divided]
  rcases List.eq_nil_or_concat front with rfl | ⟨before, mark, rfl⟩
  · simp [List.splitOnP_eq_singleton unmarked]
  · have last : isMark mark = true := by simpa using marked (by simp)
    rw [List.concat_eq_append, List.append_assoc, List.singleton_append,
      List.splitOnP_append_cons _ _ last, List.splitOnP_eq_singleton unmarked]
    simp

end Text

/-- A symbol without a namespace. -/
structure Word extends Symbol where
  plain : toSymbol.Plain

namespace Word

@[simp] theorem plainSymbol?_form (word : Word) : word.form.plainSymbol? = some word.toSymbol :=
  Form.plainSymbol?_iff.mpr ⟨rfl, word.plain⟩

@[simp] theorem isKeyword_form (word : Word) (base : String) : word.form.isKeyword base = false :=
  rfl

theorem of_plainSymbol? {form : Form} {symbol : Symbol} (found : form.plainSymbol? = some symbol) :
    ∃ word : Word, word.toSymbol = symbol ∧ form = word.form := by
  obtain ⟨rfl, plain⟩ := Form.plainSymbol?_iff.mp found
  exact ⟨⟨symbol, plain⟩, rfl, rfl⟩

end Word

theorem Form.isKeyword_iff {form : Form} {base : String} :
    form.isKeyword base = true ↔ form = .plainKeyword base := by
  cases form <;> simp [Form.isKeyword, Form.plainKeyword]

namespace Declaration

/-- What stands behind the last dot or backslash of a name. -/
def lastPart (name : String) : String :=
  String.ofList (name.toList.rtakeWhile fun c => c ≠ '.' ∧ c ≠ '\\')

/-- A class and, behind `:as`, the name to call it by. -/
structure Use where
  cls : Word
  short : Option Word

namespace Use

def forms (use : Use) : List Form :=
  use.cls.form :: match use.short with
    | none => []
    | some short => [.plainKeyword "as", short.form]

/-- Without a name of its own a class is called by the last part of its name. -/
def entry (use : Use) : String × String :=
  ((use.short.map fun short => short.base).getD (lastPart use.cls.base), className use.cls.base)

end Use

inductive RequireOption where
  /-- `:as` with the name to call the namespace by. -/
  | short (name : Word)
  /-- `:refer` with the names to be taken from it. -/
  | refer (names : List Word) (span : Option Span) (metadata : Entries)

namespace RequireOption

def forms : RequireOption → List Form
  | .short name => [.plainKeyword "as", name.form]
  | .refer names span metadata =>
    [.plainKeyword "refer", .vector (names.map fun name => name.form) span metadata]

def short? : RequireOption → Option String
  | .short name => some name.base
  | .refer .. => none

def names : RequireOption → List String
  | .short _ => []
  | .refer names _ _ => names.map fun name => name.base

end RequireOption

/-- What a clause asks for. -/
inductive Content where
  | uses (classes : List Use)
  | require (target : Word) (options : List RequireOption)
  | requireFiles (paths : List String)

namespace Content

def forms : Content → List Form
  | .uses classes => .plainKeyword "use" :: classes.flatMap Use.forms
  | .require target options =>
    .plainKeyword "require" :: target.form :: options.flatMap RequireOption.forms
  | .requireFiles paths => .plainKeyword "require-file" :: paths.map Form.str

def Valid (settings : Settings) : Content → Prop
  | .require target _ => settings.Accepts target.base
  | _ => True

/-- The last `:as` counts. Without one a namespace is called by the last part of its name. -/
def declaration : Content → Declaration
  | .uses classes => { classAliases := classes.map Use.entry }
  | .require target options => {
      requires := [target.toSymbol]
      namespaceAliases :=
        [((options.filterMap RequireOption.short?).getLast?.getD (lastPart target.base),
          target.base)]
      refers := (options.flatMap RequireOption.names).map fun name => (name, target.base) }
  | .requireFiles paths => { requireFiles := paths }

end Content

structure Clause where
  content : Content
  span : Option Span
  metadata : Entries

def Clause.form (clause : Clause) : Form := .list clause.content.forms clause.span clause.metadata

theorem shortName_eq (name : String) : shortName name = lastPart name := by
  rw [shortName, Text.lastSegment_eq, lastPart]
  congr 2
  funext c
  simp [Bool.beq_eq_decide_eq]

section Reading

variable {clause : Form} {forms : List Form}

theorem referred_eq_ok {names : List String} :
    referred forms = .ok names ↔
      ∃ words : List Word, forms = words.map (fun word => word.form) ∧
        names = words.map fun word => word.base := by
  constructor
  · intro read
    induction forms generalizing names with
    | nil =>
      obtain rfl := Except.ok.inj read
      exact ⟨[], rfl, rfl⟩
    | cons form rest ih =>
      unfold referred at read
      split at read
      · contradiction
      next symbol found =>
        obtain ⟨others, more, same⟩ := bind_eq_ok.mp read
        obtain rfl := Except.ok.inj same
        obtain ⟨word, rfl, rfl⟩ := Word.of_plainSymbol? found
        obtain ⟨words, rfl, rfl⟩ := ih more
        exact ⟨word :: words, rfl, rfl⟩
  · rintro ⟨words, rfl, rfl⟩
    induction words with
    | nil => rfl
    | cons word rest ih =>
      rw [List.map_cons, List.map_cons, referred, word.plainSymbol?_form]
      exact bind_eq_ok.mpr ⟨_, ih, rfl⟩

theorem files_eq_ok {paths : List String} : files forms = .ok paths ↔ forms = paths.map .str := by
  constructor
  · intro read
    induction forms generalizing paths with
    | nil =>
      obtain rfl := Except.ok.inj read
      rfl
    | cons form rest ih =>
      unfold files at read
      split at read
      · contradiction
      · next path rest same =>
        obtain ⟨rfl, rfl⟩ := List.cons.inj same
        obtain ⟨others, more, same⟩ := bind_eq_ok.mp read
        obtain rfl := Except.ok.inj same
        rw [ih more]
        rfl
      · contradiction
  · rintro rfl
    induction paths with
    | nil => rfl
    | cons path rest ih => exact bind_eq_ok.mpr ⟨_, ih, rfl⟩

theorem uses_cons_short (cls short : Word) :
    uses clause (cls.form :: .plainKeyword "as" :: short.form :: forms) =
      (uses clause forms).map ((short.base, className cls.base) :: ·) := by
  have mark : (Form.plainKeyword "as").isKeyword "as" = true := by decide
  rw [uses, cls.plainSymbol?_form]
  simp only [mark, if_true, short.plainSymbol?_form]
  rfl

theorem uses_cons_plain (cls : Word)
    (unmarked : ∀ mark ∈ forms.head?, mark.isKeyword "as" = false) :
    uses clause (cls.form :: forms) =
      (uses clause forms).map ((lastPart cls.base, className cls.base) :: ·) := by
  rw [uses, cls.plainSymbol?_form, ← shortName_eq]
  cases forms with
  | nil => rfl
  | cons mark behind =>
    simp only [unmarked mark rfl, Bool.false_eq_true, if_false]
    rfl

theorem uses_eq_ok {entries : List (String × String)} :
    uses clause forms = .ok entries ↔
      ∃ classes : List Use, forms = classes.flatMap Use.forms ∧
        entries = classes.map Use.entry := by
  constructor
  · intro read
    fun_induction uses clause forms generalizing entries with
    | case1 =>
      obtain rfl := Except.ok.inj read
      exact ⟨[], rfl, rfl⟩
    | case3 form cls found =>
      obtain rfl := Except.ok.inj read
      obtain ⟨word, rfl, rfl⟩ := Word.of_plainSymbol? found
      exact ⟨[⟨word, none⟩], rfl, by rw [shortName_eq]; rfl⟩
    | case6 form cls found mark marked name others short foundShort ih =>
      obtain ⟨later, more, same⟩ := bind_eq_ok.mp read
      obtain rfl := Except.ok.inj same
      obtain ⟨word, rfl, rfl⟩ := Word.of_plainSymbol? found
      obtain ⟨shortWord, rfl, rfl⟩ := Word.of_plainSymbol? foundShort
      obtain rfl := Form.isKeyword_iff.mp marked
      obtain ⟨classes, rfl, rfl⟩ := ih more
      exact ⟨⟨word, some shortWord⟩ :: classes, rfl, rfl⟩
    | case7 form cls found mark behind unmarked ih =>
      obtain ⟨later, more, same⟩ := bind_eq_ok.mp read
      obtain rfl := Except.ok.inj same
      obtain ⟨word, rfl, rfl⟩ := Word.of_plainSymbol? found
      obtain ⟨classes, split, rfl⟩ := ih more
      refine ⟨⟨word, none⟩ :: classes, ?_, by rw [shortName_eq]; rfl⟩
      rw [split]
      rfl
    | _ => contradiction
  · rintro ⟨classes, rfl, rfl⟩
    induction classes with
    | nil => rfl
    | cons use rest ih =>
      obtain ⟨cls, short⟩ := use
      cases short with
      | some short => exact (uses_cons_short cls short).trans (map_eq_ok.mpr ⟨_, ih, rfl⟩)
      | none =>
        -- What follows is the next class, so it is not the mark of a name.
        have unmarked : ∀ mark ∈ (rest.flatMap Use.forms).head?, mark.isKeyword "as" = false := by
          cases rest with
          | nil => simp
          | cons next others => simp [Use.forms]
        exact (uses_cons_plain cls unmarked).trans (map_eq_ok.mpr ⟨_, ih, rfl⟩)

theorem option_eq_ok {mark value : Form} {short : Option String} {names : List String} :
    option clause mark value = .ok (short, names) ↔
      ∃ written : RequireOption, written.forms = [mark, value] ∧ short = written.short? ∧
        names = written.names := by
  constructor
  · intro read
    unfold option at read
    split at read
    next items span metadata =>
      split at read
      next marked =>
        obtain ⟨_, more, same⟩ := bind_eq_ok.mp read
        obtain ⟨rfl, rfl⟩ := Prod.mk.inj (Except.ok.inj same)
        obtain rfl := Form.isKeyword_iff.mp marked
        obtain ⟨words, rfl, rfl⟩ := referred_eq_ok.mp more
        exact ⟨.refer words span metadata, rfl, rfl, rfl⟩
      · contradiction
    · split at read
      next symbol marked found =>
        obtain ⟨rfl, rfl⟩ := Prod.mk.inj (Except.ok.inj read)
        obtain rfl := Form.isKeyword_iff.mp marked
        obtain ⟨word, rfl, rfl⟩ := Word.of_plainSymbol? found
        exact ⟨.short word, rfl, rfl, rfl⟩
      · contradiction
  · rintro ⟨written, same, rfl, rfl⟩
    cases written with
    | short name =>
      obtain ⟨rfl, rest⟩ := List.cons.inj same
      obtain ⟨rfl, _⟩ := List.cons.inj rest
      have mark : (Form.plainKeyword "as").isKeyword "as" = true := by decide
      simp only [option, Symbol.form, mark]
      rw [← Symbol.form, name.plainSymbol?_form]
      rfl
    | refer words span metadata =>
      obtain ⟨rfl, rest⟩ := List.cons.inj same
      obtain ⟨rfl, _⟩ := List.cons.inj rest
      have mark : (Form.plainKeyword "refer").isKeyword "refer" = true := by decide
      simp only [option, mark, if_true]
      exact bind_eq_ok.mpr ⟨_, referred_eq_ok.mpr ⟨words, rfl, rfl⟩, rfl⟩

theorem getLast?_short (option : RequireOption) (rest : List RequireOption) :
    ((option :: rest).filterMap RequireOption.short?).getLast? =
      (rest.filterMap RequireOption.short?).getLast?.or option.short? := by
  cases option <;> simp [RequireOption.short?, List.getLast?_cons]

theorem options_eq_ok {short : Option String} {names : List String} :
    options clause forms = .ok (short, names) ↔
      ∃ written : List RequireOption, forms = written.flatMap RequireOption.forms ∧
        short = (written.filterMap RequireOption.short?).getLast? ∧
        names = written.flatMap RequireOption.names := by
  constructor
  · intro read
    induction forms using options.induct generalizing short names with
    | case1 =>
      obtain ⟨rfl, rfl⟩ := Prod.mk.inj (Except.ok.inj read)
      exact ⟨[], rfl, rfl, rfl⟩
    | case2 => contradiction
    | case3 mark value rest ih =>
      obtain ⟨⟨own, ownNames⟩, first, rest'⟩ := bind_eq_ok.mp read
      obtain ⟨⟨later, others⟩, more, same⟩ := bind_eq_ok.mp rest'
      obtain ⟨rfl, rfl⟩ := Prod.mk.inj (Except.ok.inj same)
      obtain ⟨option, written, rfl, rfl⟩ := option_eq_ok.mp first
      obtain ⟨options, rfl, rfl, rfl⟩ := ih more
      refine ⟨option :: options, ?_, (getLast?_short option options).symm, rfl⟩
      rw [List.flatMap_cons, written]
      rfl
  · rintro ⟨written, rfl, rfl, rfl⟩
    induction written with
    | nil => rfl
    | cons option rest ih =>
      obtain ⟨mark, value, pair⟩ : ∃ mark value, option.forms = [mark, value] := by
        cases option <;> exact ⟨_, _, rfl⟩
      rw [List.flatMap_cons, pair, getLast?_short]
      refine bind_eq_ok.mpr ⟨_, option_eq_ok.mpr ⟨option, pair, rfl, rfl⟩, ?_⟩
      exact bind_eq_ok.mpr ⟨_, ih, rfl⟩

variable {settings : Settings} {declaration : Declaration}

theorem ofRequire_eq_ok :
    ofRequire settings clause forms = .ok declaration ↔
      ∃ (target : Word) (options : List RequireOption),
        forms = target.form :: options.flatMap RequireOption.forms ∧
        settings.Accepts target.base ∧
        declaration = (Content.require target options).declaration := by
  constructor
  · intro read
    unfold ofRequire at read
    split at read
    · contradiction
    next symbol found =>
      cases forms with
      | nil => contradiction
      | cons form rest =>
        obtain ⟨target, rfl, rfl⟩ := Word.of_plainSymbol? found
        obtain ⟨_, checked, read⟩ := bind_eq_ok.mp read
        obtain ⟨⟨short, names⟩, options, same⟩ := bind_eq_ok.mp read
        obtain ⟨written, rfl, rfl, rfl⟩ := options_eq_ok.mp options
        obtain rfl := Except.ok.inj same
        refine ⟨target, written, rfl, Settings.checkNamespace_eq_ok.mp checked, ?_⟩
        rw [shortName_eq]
        rfl
  · rintro ⟨target, options, rfl, accepted, rfl⟩
    simp only [ofRequire, List.head?_cons, Option.bind_some, target.plainSymbol?_form, shortName_eq]
    refine bind_eq_ok.mpr ⟨(), Settings.checkNamespace_eq_ok.mpr accepted, ?_⟩
    exact bind_eq_ok.mpr ⟨_, options_eq_ok.mpr ⟨options, rfl, rfl, rfl⟩, rfl⟩

/-- The clauses that are read are those that can be written with valid names. -/
theorem ofClause_eq_ok :
    ofClause settings clause = .ok declaration ↔
      ∃ written : Clause, clause = written.form ∧ written.content.Valid settings ∧
        declaration = written.content.declaration := by
  constructor
  · intro read
    unfold ofClause at read
    split at read
    next base args span metadata =>
      split at read
      · obtain ⟨entries, more, same⟩ := bind_eq_ok.mp read
        obtain rfl := Except.ok.inj same
        obtain ⟨classes, rfl, rfl⟩ := uses_eq_ok.mp more
        exact ⟨⟨.uses classes, span, metadata⟩, rfl, trivial, rfl⟩
      · obtain ⟨target, options, rfl, accepted, rfl⟩ := ofRequire_eq_ok.mp read
        exact ⟨⟨.require target options, span, metadata⟩, rfl, accepted, rfl⟩
      · obtain ⟨paths, more, same⟩ := bind_eq_ok.mp read
        obtain rfl := Except.ok.inj same
        obtain rfl := files_eq_ok.mp more
        exact ⟨⟨.requireFiles paths, span, metadata⟩, rfl, trivial, rfl⟩
      · contradiction
    · contradiction
  · rintro ⟨⟨content, span, metadata⟩, rfl, valid, rfl⟩
    cases content with
    | uses classes => exact bind_eq_ok.mpr ⟨_, uses_eq_ok.mpr ⟨classes, rfl, rfl⟩, rfl⟩
    | require target options => exact ofRequire_eq_ok.mpr ⟨target, options, rfl, valid, rfl⟩
    | requireFiles paths => exact bind_eq_ok.mpr ⟨_, files_eq_ok.mpr rfl, rfl⟩

/-- What several declarations ask for together. -/
def join (declarations : List Declaration) : Declaration where
  requires := declarations.flatMap requires
  requireFiles := declarations.flatMap requireFiles
  classAliases := declarations.flatMap classAliases
  namespaceAliases := declarations.flatMap namespaceAliases
  refers := declarations.flatMap refers

theorem ofClauses_eq_ok :
    ofClauses settings forms = .ok declaration ↔
      ∃ clauses : List Clause, forms = clauses.map Clause.form ∧
        (∀ clause ∈ clauses, clause.content.Valid settings) ∧
        declaration = join (clauses.map fun clause => clause.content.declaration) := by
  constructor
  · intro read
    induction forms generalizing declaration with
    | nil =>
      obtain rfl := Except.ok.inj read
      exact ⟨[], rfl, List.forall_mem_nil _, rfl⟩
    | cons form rest ih =>
      obtain ⟨here, first, read⟩ := bind_eq_ok.mp read
      obtain ⟨there, more, same⟩ := bind_eq_ok.mp read
      obtain rfl := Except.ok.inj same
      obtain ⟨clause, rfl, valid, rfl⟩ := ofClause_eq_ok.mp first
      obtain ⟨clauses, rfl, others, rfl⟩ := ih more
      exact ⟨clause :: clauses, rfl, List.forall_mem_cons.mpr ⟨valid, others⟩, rfl⟩
  · rintro ⟨clauses, rfl, valid, rfl⟩
    induction clauses with
    | nil => rfl
    | cons clause rest ih =>
      obtain ⟨first, others⟩ := List.forall_mem_cons.mp valid
      refine bind_eq_ok.mpr ⟨_, ofClause_eq_ok.mpr ⟨clause, rfl, first, rfl⟩, ?_⟩
      exact bind_eq_ok.mpr ⟨_, ih others, rfl⟩

end Reading

end Declaration

open Declaration

/-- An `ns` form: a name and clauses. -/
structure NsForm where
  name : Word
  clauses : List Clause

namespace NsForm

/-- What stands behind the head of the form. -/
def args (form : NsForm) : List Form := form.name.form :: form.clauses.map Clause.form

structure Valid (settings : Settings) (form : NsForm) : Prop where
  name : settings.Accepts form.name.base
  clauses : ∀ clause ∈ form.clauses, clause.content.Valid settings

/-- What the clauses ask for, in their order. -/
def declared (form : NsForm) : Declaration :=
  join (form.clauses.map fun clause => clause.content.declaration)

/-- The core namespace, unless it is declared itself, and then the required ones. -/
def requires (core : String) (form : NsForm) : List Symbol :=
  (if form.name.base = core then [] else [.plain core]) ++ form.declared.requires

end NsForm

/-- The last of the declared targets of a name. -/
def lastTarget (name : String) (declared : List (String × String)) : Option String :=
  declared.reverse.lookup name

/-- What an `ns` form does to a registry: it changes the current namespace, and for the namespace
of this name what it calls the things of others. -/
structure NsForm.Effect (form : NsForm) (before after : Registry) : Prop where
  current : after.current = form.name.base
  classAlias : ∀ short, after.classAlias? form.name.base short =
    (lastTarget short form.declared.classAliases).or (before.classAlias? form.name.base short)
  namespaceAlias : ∀ short, after.namespaceAlias? form.name.base short =
    (lastTarget short form.declared.namespaceAliases).or
      (before.namespaceAlias? form.name.base short)
  refer : ∀ base, after.refer? form.name.base base =
    (lastTarget base form.declared.refers).or (before.refer? form.name.base base)
  definitions : ∀ ns base, after.definition? ns base = before.definition? ns base
  interfaces : ∀ ns base, after.interface? ns base = before.interface? ns base
  others : ∀ ns, ns ≠ form.name.base → after.namespaces.find? ns = before.namespaces.find? ns
  redefinition : after.allowRedefinition = before.allowRedefinition

theorem NsForm.effect_register (form : NsForm) (registry : Registry) :
    form.Effect registry (form.declared.register form.name.base registry) := by
  have same : registry.SameTables (form.declared.register form.name.base registry) :=
    .register form.declared
  have own : (form.declared.register form.name.base registry).space form.name.base =
      form.declared.enrich (registry.space form.name.base) := by
    rw [register_eq, Registry.space_update, if_pos rfl]
    exact congrArg _ (Registry.space_update.trans (if_pos rfl))
  refine ⟨?_, fun short => ?_, fun short => ?_, fun base => ?_, same.definitions, same.interfaces,
    fun ns apart => ?_, ?_⟩
  · rw [register_eq]
    rfl
  · rw [Registry.classAlias?_eq, own, Registry.classAlias?_eq]
    exact Table.find?_insertAll _ _
  · rw [Registry.namespaceAlias?_eq, own, Registry.namespaceAlias?_eq]
    exact Table.find?_insertAll _ _
  · rw [Registry.refer?_eq, own, Registry.refer?_eq]
    exact Table.find?_insertAll _ _
  · rw [register_eq]
    simp only [Registry.update, Registry.setCurrent, Table.find?_insert, if_neg apart]
  · rw [register_eq]
    rfl

theorem Declaration.enrich_core_append (settings : Settings) (ns : String)
    (declaration : Declaration) :
    ((core settings ns).append declaration).enrich = declaration.enrich := by
  unfold core
  split <;> rfl

/-- The arguments that are read are those of a valid `ns` form. -/
theorem Declaration.ofArgs_eq_ok {settings : Settings} {args : List Form} {span : Option Span}
    {base : String} {declaration : Declaration} :
    ofArgs settings args span = .ok (base, declaration) ↔
      ∃ form : NsForm, form.Valid settings ∧ args = form.args ∧ base = form.name.base ∧
        declaration = (core settings form.name.base).append form.declared := by
  constructor
  · intro read
    unfold ofArgs at read
    split at read
    · contradiction
    · split at read
      · contradiction
      next clauses symbol found =>
        obtain ⟨name, rfl, rfl⟩ := Word.of_plainSymbol? found
        obtain ⟨_, checked, read⟩ := bind_eq_ok.mp read
        obtain ⟨declared, more, same⟩ := bind_eq_ok.mp read
        obtain ⟨rfl, rfl⟩ := Prod.mk.inj (Except.ok.inj same)
        obtain ⟨clauses, rfl, valid, rfl⟩ := ofClauses_eq_ok.mp more
        exact ⟨⟨name, clauses⟩, ⟨Settings.checkNamespace_eq_ok.mp checked, valid⟩, rfl, rfl, rfl⟩
  · rintro ⟨⟨name, clauses⟩, ⟨accepted, valid⟩, rfl, rfl, rfl⟩
    simp only [ofArgs, NsForm.args, name.plainSymbol?_form]
    refine bind_eq_ok.mpr ⟨(), Settings.checkNamespace_eq_ok.mpr accepted, ?_⟩
    exact bind_eq_ok.mpr ⟨_, ofClauses_eq_ok.mpr ⟨clauses, rfl, valid, rfl⟩, rfl⟩

section Analysis

variable (analyzer : Analyzer) (nameSpan span : Option Span) (nameMetadata metadata : Entries)
variable (scope : Scope) (s : State)

theorem gives_analyzeNs {settings : Settings} {args : List Form} {node : Node} {t : State} :
    Gives (analyzeNs settings args span scope) s node t ↔
      ∃ form : NsForm, form.Valid settings ∧ args = form.args ∧
        node = .mk scope span (.ns form.name.base (form.requires settings.coreNamespace)
          form.declared.requireFiles) ∧
        t = { s with registry := form.declared.register form.name.base s.registry } := by
  have required (form : NsForm) :
      ((core settings form.name.base).append form.declared).requires =
        form.requires settings.coreNamespace := by
    unfold core NsForm.requires
    split <;> rfl
  have files (form : NsForm) :
      ((core settings form.name.base).append form.declared).requireFiles =
        form.declared.requireFiles := by
    unfold core
    split <;> rfl
  simp only [analyzeNs, gives_bind, gives_ofExcept, gives_changeRegistry, gives_pure]
  constructor
  · rintro ⟨⟨base, declaration⟩, _, ⟨read, rfl⟩, _, _, rfl, rfl, rfl⟩
    obtain ⟨form, valid, rfl, rfl, rfl⟩ := ofArgs_eq_ok.mp read
    refine ⟨form, valid, rfl, by rw [required, files], ?_⟩
    rw [register_eq, register_eq, enrich_core_append]
  · rintro ⟨form, valid, rfl, rfl, rfl⟩
    refine ⟨(form.name.base, (core settings form.name.base).append form.declared), s,
      ⟨ofArgs_eq_ok.mpr ⟨form, valid, rfl, rfl, rfl⟩, rfl⟩, (), _, rfl, by rw [required, files], ?_⟩
    rw [register_eq, register_eq, enrich_core_append]

/-- An `ns` form is accepted if its name and the namespaces it requires are valid and its clauses
are written as they should be, and not otherwise. Then it has its effect on the registry and on
nothing else, and the tree holds the namespaces to load first, in order. Of several `:as` in one
clause the last one counts; the others declare nothing. -/
theorem ns_form_effect (args : List Form) :
    ((∃ node t, analyzer.analyze
        (.list (.symbol SpecialForm.ns.name nameSpan nameMetadata :: args) span metadata) scope s =
          (.ok node, t)) ↔
      ∃ form : NsForm, form.Valid analyzer.settings ∧ args = form.args) ∧
    ∀ form : NsForm, form.Valid analyzer.settings → args = form.args → ∃ registry,
      analyzer.analyze
        (.list (.symbol SpecialForm.ns.name nameSpan nameMetadata :: args) span metadata) scope s =
          (.ok (.mk scope span (.ns form.name.base
            (form.requires analyzer.settings.coreNamespace) form.declared.requireFiles)),
            { s with registry }) ∧
      form.Effect s.registry registry := by
  obtain ⟨expand, depth, special⟩ :=
    analyzer.analyze_special .ns nameSpan span nameMetadata metadata args scope
  rw [special]
  refine ⟨⟨?_, ?_⟩, ?_⟩
  · rintro ⟨node, t, run⟩
    obtain ⟨form, valid, same, _⟩ := (gives_analyzeNs span scope s).mp run
    exact ⟨form, valid, same⟩
  · rintro ⟨form, valid, same⟩
    exact ⟨_, _, (gives_analyzeNs span scope s).mpr ⟨form, valid, same, rfl, rfl⟩⟩
  · intro form valid same
    exact ⟨_, (gives_analyzeNs span scope s).mpr ⟨form, valid, same, rfl, rfl⟩,
      form.effect_register s.registry⟩

end Analysis

def Word.unlocated (base : String) : Word := ⟨.plain base, rfl⟩

/-- The form `(ns shop.cart (:use Vendor.Lib :as Lib Other.Lib)
(:require shop.db :as d :refer [query] :as db) (:require shop.log :as db) (:require-file "x"))`. -/
def NsForm.shopCart : NsForm where
  name := .unlocated "shop.cart"
  clauses := [
    ⟨.uses [⟨.unlocated "Vendor.Lib", some (.unlocated "Lib")⟩, ⟨.unlocated "Other.Lib", none⟩],
      none, []⟩,
    ⟨.require (.unlocated "shop.db") [.short (.unlocated "d"), .refer [.unlocated "query"] none [],
      .short (.unlocated "db")], none, []⟩,
    ⟨.require (.unlocated "shop.log") [.short (.unlocated "db")], none, []⟩,
    ⟨.requireFiles ["x"], none, []⟩]

/-- In each table the later entry of the form counts, and so does the later `:as` of a clause. -/
theorem ns_form_effect_shopCart : NsForm.shopCart.Valid {} ∧ ∃ registry,
    ({} : Analyzer).analyze
      (.list (.symbol SpecialForm.ns.name none [] :: NsForm.shopCart.args) none []) .top
      { registry := .ofSettings {} } =
        (.ok (.mk .top none (.ns "shop.cart" [.plain "core", .plain "shop.db", .plain "shop.log"]
          ["x"])), { registry }) ∧
    registry.current = "shop.cart" ∧
    registry.classAlias? "shop.cart" "Lib" = some "\\Other\\Lib" ∧
    registry.namespaceAlias? "shop.cart" "db" = some "shop.log" ∧
    registry.namespaceAlias? "shop.cart" "d" = none ∧
    registry.refer? "shop.cart" "query" = some "shop.db" := by
  have accepted : ∀ ns ∈ ["shop.cart", "shop.db", "shop.log"], Settings.Accepts {} ns := by
    intro ns member
    refine (@Settings.checkNamespace_eq_ok {} ns none).mp ?_
    revert ns
    decide +kernel
  have valid : NsForm.shopCart.Valid {} := by
    refine ⟨accepted _ (by decide), ?_⟩
    simp only [NsForm.shopCart, List.forall_mem_cons]
    exact ⟨trivial, accepted _ (by decide), accepted _ (by decide), trivial,
      List.forall_mem_nil _⟩
  obtain ⟨_, effect⟩ := ns_form_effect {} none none [] [] .top { registry := .ofSettings {} }
    NsForm.shopCart.args
  obtain ⟨registry, run, effect⟩ := effect NsForm.shopCart valid rfl
  exact ⟨valid, registry, run, effect.current, (effect.classAlias "Lib").trans (by decide +kernel),
    (effect.namespaceAlias "db").trans (by decide +kernel),
    (effect.namespaceAlias "d").trans (by decide +kernel),
    (effect.refer "query").trans (by decide +kernel)⟩

end LispFront
