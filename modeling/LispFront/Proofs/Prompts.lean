import LispFront.Proofs.Effects
import LispFront.Proofs.Lowering

/-! `Form.Prompts` lists, by the form alone, what its rule may hand on: its items, forms inside of
its items, and what lowering makes of them. A property of forms that lowering keeps is handed down
this way (`Form.Hereditary.prompts`). -/

namespace LispFront

/-- The form is one of these or a fresh name. -/
def Form.Given (items : List Form) (form : Form) : Prop :=
  form ∈ items ∨ ∃ symbol : Symbol, symbol.IsTemp ∧ form = symbol.form

/-- A `let` around a body, for the patterns among the names in front of it. -/
def Form.Wraps (args : List Form) (span : Option Span) (inner : Form) : Prop :=
  ∃ items vectorSpan vectorMetadata body bindings,
    args = .vector items vectorSpan vectorMetadata :: body ∧
    (∀ form ∈ bindings, form.Given items) ∧ inner = Pattern.letForm bindings body span

/-- The rule of the first form may have the second one analyzed, as long as nothing is
expanded. -/
inductive Form.Prompts (core : String) : Form → Form → Prop where
  | element {items : List Form} {span : Option Span} {metadata : Entries} {form : Form}
      (member : form ∈ items) : Prompts core (.vector items span metadata) form
  | key {entries : Entries} {span : Option Span} {metadata : Entries} {entry : Form × Form}
      (member : entry ∈ entries) : Prompts core (.map entries span metadata) entry.1
  | value {entries : Entries} {span : Option Span} {metadata : Entries} {entry : Form × Form}
      (member : entry ∈ entries) : Prompts core (.map entries span metadata) entry.2
  | item {head form : Form} {args : List Form} {span : Option Span} {metadata : Entries}
      (member : form ∈ head :: args) : Prompts core (.list (head :: args) span metadata) form
  /-- The value of an empty body or of a missing branch. -/
  | missing {head : Form} {args : List Form} {span : Option Span} {metadata : Entries} :
      Prompts core (.list (head :: args) span metadata) .nil
  /-- First values, the bodies of clauses, the arguments of a method. -/
  | inside {head arg form : Form} {args : List Form} {span : Option Span} {metadata : Entries}
      (member : arg ∈ args) (listed : form ∈ arg.items) :
      Prompts core (.list (head :: args) span metadata) form
  /-- What is taken from the value of a pattern in a header. -/
  | part {head arg pattern form : Form} {args : List Form} {span : Option Span}
      {metadata : Entries} (member : arg ∈ args) (listed : pattern ∈ arg.items)
      (taken : Pattern.IsPart core pattern form) :
      Prompts core (.list (head :: args) span metadata) form
  | wrapped {head form : Form} {args : List Form} {span : Option Span} {metadata : Entries}
      (special : Analyzer.special? head = some .fn ∨ Analyzer.special? head = some .foreach)
      (wraps : Wraps args span form) : Prompts core (.list (head :: args) span metadata) form
  | method {head form : Form} {args items : List Form} {span own : Option Span}
      {metadata ownMetadata : Entries} (member : .list items own ownMetadata ∈ args)
      (wraps : Wraps (items.drop 1) own form) :
      Prompts core (.list (head :: args) span metadata) form
  | rounds {head form : Form} {args body : List Form} {pairs : List (Form × Form)}
      {span : Option Span} {metadata : Entries} {n m : NameSupply}
      (special : Analyzer.special? head = some .loop)
      (read : Binder.header .loop args span = .ok (pairs, body))
      (patterns : (pairs.all fun pair => Pattern.isSimple pair.1) = false)
      (lowered : Gives (Pattern.lowerLoop pairs body span) n form m) :
      Prompts core (.list (head :: args) span metadata) form
  | metadata {head init : Form} {args : List Form} {span : Option Span}
      {ownMetadata entries : Entries} {given : Option Form} {name : Symbol}
      (special : Analyzer.special? head = some .define)
      (parts : Definition.parts args span = .ok (given, init))
      (named : definedName .define args span = .ok name)
      (collected : Definition.collectMetadata name given span = .ok entries) :
      Prompts core (.list (head :: args) span ownMetadata) (.map entries span [])

theorem Definition.mem_of_parts {args : List Form} {span : Option Span} {given : Option Form}
    {init : Form} (read : parts args span = .ok (given, init)) :
    (∀ form ∈ given, form ∈ args) ∧ init ∈ args := by
  have behind : ∀ arg ∈ args.drop 1, arg ∈ args := fun _ => List.mem_of_mem_drop
  unfold parts at read
  split at read
  next two =>
    obtain ⟨rfl, rfl⟩ := Prod.mk.inj (Except.ok.inj read)
    rw [two] at behind
    simpa using behind
  next one =>
    obtain ⟨rfl, rfl⟩ := Prod.mk.inj (Except.ok.inj read)
    rw [one] at behind
    simpa using behind
  next => contradiction

/-- Metadata is put together from the form behind the name, the name and the place. -/
theorem Definition.mem_collectMetadata {name : Symbol} {given : Option Form} {span : Option Span}
    {entries : Entries} {entry : Form × Form}
    (collected : collectMetadata name given span = .ok entries) (member : entry ∈ entries) :
    (∃ form ∈ given, ∃ written, Entries.ofMetadataForm form = .ok written ∧ entry ∈ written) ∨
    entry ∈ name.metadata ∨ ∃ place, span = some place ∧ entry ∈ Entries.ofSpan place := by
  have located {own : Entries} (member : entry ∈ own.located span) :
      entry ∈ own ∨ ∃ place, span = some place ∧ entry ∈ Entries.ofSpan place := by
    cases span with
    | none => exact .inl member
    | some place => exact (Ordered.mem_union member).imp_right fun there => ⟨place, rfl, there⟩
  unfold collectMetadata at collected
  split at collected
  next form =>
    match read : Entries.ofMetadataForm form with
    | .ok written =>
      rw [read] at collected
      obtain rfl := Except.ok.inj collected
      rcases located member with here | place
      · rcases Ordered.mem_union here with first | second
        · exact .inl ⟨form, rfl, written, read, first⟩
        · exact .inr (.inl second)
      · exact .inr (.inr place)
    | .error error =>
      rw [read] at collected
      contradiction
  next =>
    obtain rfl := Except.ok.inj collected
    exact .inr (located member)

/-- The symbol that a definition names is its first argument. -/
theorem form_mem_of_definedName {form : SpecialForm} {args : List Form} {span : Option Span}
    {name : Symbol} (read : definedName form args span = .ok name) : name.form ∈ args := by
  obtain ⟨arg, first, plain⟩ := Option.bind_eq_some_iff.mp (definedName_eq_ok read)
  rw [← Form.plainSymbol?_eq_some plain]
  exact List.mem_of_head? first

namespace Form

/-- A property that passes from forms to their parts, and to maps of them. -/
structure Inherited (good : Form → Prop) : Prop where
  scalar : ∀ form : Form, form.metadata? = none → good form
  symbol : ∀ {name span metadata}, good (.symbol name span metadata) → Entries.All good metadata
  list : ∀ {items span metadata}, good (.list items span metadata) → ∀ item ∈ items, good item
  vector : ∀ {items span metadata}, good (.vector items span metadata) → ∀ item ∈ items, good item
  map : ∀ {entries span metadata}, good (.map entries span metadata) → Entries.All good entries
  entries : ∀ {entries span}, Entries.All good entries → good (.map entries span [])

/-- A property that passes to what lowering makes of the parts as well. -/
structure Hereditary (core : String) (good : Form → Prop) : Prop extends Inherited good where
  fresh : ∀ symbol : Symbol, symbol.IsTemp → good symbol.form
  accessor : ∀ {base args span}, (∀ arg ∈ args, good arg) →
    good (Pattern.accessor core base args span)
  letForm : ∀ {bindings body span}, (∀ form ∈ bindings, good form) → (∀ form ∈ body, good form) →
    good (Pattern.letForm bindings body span)
  loopForm : ∀ {bindings body span}, (∀ form ∈ bindings, good form) →
    (∀ form ∈ body, good form) → good (Pattern.loopForm bindings body span)

namespace Inherited

variable {good : Form → Prop} (inherited : Inherited good)
variable {args : List Form} {span : Option Span}

include inherited

theorem beneath {inner pattern : Form} (own : good pattern) (inside : inner.Beneath pattern) :
    good inner := by
  induction inside with
  | element member => exact inherited.vector own _ member
  | key member => exact (inherited.map own _ member).1
  | value member => exact (inherited.map own _ member).2
  | trans _ _ inner outer => exact inner (outer own)

theorem items {form : Form} (own : good form) : ∀ item ∈ form.items, good item := by
  cases form with
  | list => exact inherited.list own
  | vector => exact inherited.vector own
  | _ => exact List.forall_mem_nil _

theorem ofSpan (span : Span) : Entries.All good (Entries.ofSpan span) := by
  have position (line column : UInt64) (file : Option String) :
      good (Entries.ofPosition line column file) := by
    refine inherited.entries fun entry member => ?_
    have listed := Ordered.mem_ofList member
    simp only [List.mem_append, List.mem_cons, List.not_mem_nil, or_false, List.mem_map] at listed
    rcases listed with (rfl | rfl) | ⟨path, _, rfl⟩
    all_goals exact ⟨inherited.scalar _ rfl, inherited.scalar _ rfl⟩
  intro entry member
  have listed := Ordered.mem_ofList member
  simp only [List.mem_cons, List.not_mem_nil, or_false] at listed
  rcases listed with rfl | rfl
  all_goals exact ⟨inherited.scalar _ rfl, position _ _ _⟩

theorem ofMetadataForm {form : Form} {entries : Entries} (own : good form)
    (read : Entries.ofMetadataForm form = .ok entries) : Entries.All good entries := by
  unfold Entries.ofMetadataForm at read
  split at read
  · obtain rfl := Except.ok.inj read
    exact List.forall_mem_singleton.mpr ⟨inherited.scalar _ rfl, inherited.scalar _ rfl⟩
  · obtain rfl := Except.ok.inj read
    exact List.forall_mem_singleton.mpr ⟨inherited.scalar _ rfl, inherited.scalar _ rfl⟩
  · obtain rfl := Except.ok.inj read
    exact inherited.map own
  · contradiction

theorem collected {given : Option Form} {init : Form} {name : Symbol} {entries : Entries}
    (all : ∀ arg ∈ args, good arg) (parts : Definition.parts args span = .ok (given, init))
    (named : definedName .define args span = .ok name)
    (collected : Definition.collectMetadata name given span = .ok entries) :
    good (.map entries span []) := by
  refine inherited.entries fun entry member => ?_
  rcases Definition.mem_collectMetadata collected member with
    ⟨form, written, _, read, listed⟩ | own | ⟨place, _, listed⟩
  · have form := all form ((Definition.mem_of_parts parts).1 form written)
    exact inherited.ofMetadataForm form read entry listed
  · exact inherited.symbol (all _ (form_mem_of_definedName named)) entry own
  · exact inherited.ofSpan place entry listed

end Inherited

namespace Hereditary

variable {core : String} {good : Form → Prop} (hereditary : Hereditary core good)
variable {args : List Form} {span : Option Span}

include hereditary

theorem isPart {pattern form : Form} (own : good pattern)
    (part : Pattern.IsPart core pattern form) : good form := by
  have number (index : Int) : good (.int index) := hereditary.scalar _ rfl
  obtain ⟨whole, span, temp, ⟨key, given, rfl⟩ | ⟨index, rfl⟩⟩ := part
  · refine hereditary.accessor ?_
    have key : good key := by
      rcases given with inside | ⟨index, rfl⟩
      · exact hereditary.beneath own inside
      · exact number index
    simpa using ⟨hereditary.fresh whole temp, key⟩
  · refine hereditary.accessor ?_
    simpa using ⟨number index, hereditary.fresh whole temp⟩

theorem wraps {form : Form} (all : ∀ arg ∈ args, good arg) (wraps : Wraps args span form) :
    good form := by
  obtain ⟨items, vectorSpan, vectorMetadata, body, bindings, rfl, inside, rfl⟩ := wraps
  obtain ⟨vector, bodyGood⟩ := List.forall_mem_cons.mp all
  refine hereditary.letForm (fun form member => ?_) bodyGood
  rcases inside form member with listed | ⟨symbol, temp, rfl⟩
  · exact hereditary.vector vector form listed
  · exact hereditary.fresh symbol temp

theorem lowerLoop {pairs : List (Form × Form)} {body : List Form} {form : Form} {n m : NameSupply}
    (all : Entries.All good pairs) (bodyGood : ∀ form ∈ body, good form)
    (run : Gives (Pattern.lowerLoop pairs body span) n form m) : good form := by
  simp only [Pattern.lowerLoop, gives_bind, gives_pure] at run
  obtain ⟨header, _, read, rfl, _⟩ := run
  obtain ⟨outer, names, inner⟩ := Pattern.loopHeader_all hereditary.fresh all read
  have round : good (Pattern.letForm header.inner body span) := hereditary.letForm inner bodyGood
  have loop : good (Pattern.loopForm header.names [Pattern.letForm header.inner body span] span) :=
    hereditary.loopForm names (List.forall_mem_singleton.mpr round)
  exact hereditary.letForm outer (List.forall_mem_singleton.mpr loop)

/-- What the rule of a list has analyzed has the property if the items have it. -/
theorem list_prompts {items : List Form} {metadata : Entries} {inner : Form}
    (all : ∀ item ∈ items, good item)
    (prompts : (Form.list items span metadata).Prompts core inner) :
    good inner := by
  cases prompts with
  | item member => exact all _ member
  | missing => exact hereditary.scalar _ rfl
  | inside member listed =>
    exact hereditary.items (all _ (List.mem_cons_of_mem _ member)) _ listed
  | part member listed taken =>
    have pattern := hereditary.items (all _ (List.mem_cons_of_mem _ member)) _ listed
    exact hereditary.isPart pattern taken
  | wrapped special wraps => exact hereditary.wraps (List.forall_mem_cons.mp all).2 wraps
  | method member wraps =>
    have method := hereditary.list (all _ (List.mem_cons_of_mem _ member))
    exact hereditary.wraps (fun item listed => method item (List.mem_of_mem_drop listed)) wraps
  | rounds special read patterns lowered =>
    obtain ⟨items, _, _, rfl, paired⟩ := Binder.header_eq_ok read
    obtain ⟨vector, bodyGood⟩ := List.forall_mem_cons.mp (List.forall_mem_cons.mp all).2
    have pairs := Binder.pairs?_all (hereditary.vector vector) paired
    exact hereditary.lowerLoop pairs bodyGood lowered
  | metadata special parts named collected =>
    exact hereditary.collected (List.forall_mem_cons.mp all).2 parts named collected

/-- What the rule of a form has analyzed has the property if the form has it. -/
theorem prompts {outer inner : Form} (own : good outer) (prompts : outer.Prompts core inner) :
    good inner := by
  cases outer with
  | list items span metadata => exact hereditary.list_prompts (hereditary.list own) prompts
  | vector items span metadata =>
    cases prompts with
    | element member => exact hereditary.vector own _ member
  | map entries span metadata =>
    cases prompts with
    | key member => exact (hereditary.map own _ member).1
    | value member => exact (hereditary.map own _ member).2
  | _ => cases prompts

end Hereditary

end Form

end LispFront
