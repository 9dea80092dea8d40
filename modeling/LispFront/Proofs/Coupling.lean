import LispFront.Proofs.Draws
import LispFront.Proofs.LexicalScope
import LispFront.Proofs.Mentions
import LispFront.Proofs.Outline

/-! Two runs of one analysis that differ in where the counter of fresh names stands draw names for
the same purposes in the same order; only the numbers differ. Behind a log of draws their forms,
scopes and trees correspond to each other (`Renumbering`). -/

namespace LispFront

section Coupled

variable {σ α β γ δ : Type} {S : List Draw → σ → σ → Prop} {V : List Draw → α → β → Prop}
variable {W : List Draw → γ → δ → Prop} {log : List Draw}

/-- Both runs succeed or both fail in the same way. What they have drawn was added to the log. -/
inductive Outcomes (S : List Draw → σ → σ → Prop) (V : List Draw → α → β → Prop)
    (log : List Draw) : Except AnalysisError α × σ → Except AnalysisError β × σ → Prop where
  | ok {later : List Draw} {a : α} {b : β} {s t : σ} (grown : log <+: later) (states : S later s t)
      (values : V later a b) : Outcomes S V log (.ok a, s) (.ok b, t)
  | error {later : List Draw} {error : AnalysisError} {s t : σ} (grown : log <+: later)
      (states : S later s t) : Outcomes S V log (.error error, s) (.error error, t)

/-- Behind the log, two steps have such outcomes. -/
def Coupled (S : List Draw → σ → σ → Prop) (V : List Draw → α → β → Prop) (log : List Draw)
    (x : ExceptT AnalysisError (StateM σ) α) (y : ExceptT AnalysisError (StateM σ) β) : Prop :=
  ∀ s t, S log s t → Outcomes S V log (x s) (y t)

theorem Outcomes.earlier {later : List Draw} {first : Except AnalysisError α × σ}
    {second : Except AnalysisError β × σ} (grown : log <+: later)
    (outcomes : Outcomes S V later first second) : Outcomes S V log first second := by
  cases outcomes with
  | ok more states values => exact .ok (grown.trans more) states values
  | error more states => exact .error (grown.trans more) states

theorem Outcomes.imp {U : List Draw → α → β → Prop} {first : Except AnalysisError α × σ}
    {second : Except AnalysisError β × σ} (outcomes : Outcomes S V log first second)
    (weaker : ∀ {later a b}, V later a b → U later a b) : Outcomes S U log first second := by
  cases outcomes with
  | ok grown states values => exact .ok grown states (weaker values)
  | error grown states => exact .error grown states

namespace Coupled

theorem bind {x : ExceptT AnalysisError (StateM σ) α} {y : ExceptT AnalysisError (StateM σ) β}
    {f : α → ExceptT AnalysisError (StateM σ) γ} {g : β → ExceptT AnalysisError (StateM σ) δ}
    (first : Coupled S V log x y)
    (rest : ∀ {later a b}, log <+: later → V later a b → Coupled S W later (f a) (g b)) :
    Coupled S W log (x >>= f) (y >>= g) := by
  intro s t related
  have outcomes := first s t related
  rcases left : x s with ⟨outcome, u⟩
  rcases right : y t with ⟨other, v⟩
  rw [left, right] at outcomes
  cases outcomes with
  | ok grown states values =>
    rw [bind_of_ok left, bind_of_ok right]
    exact (rest grown values _ _ states).earlier grown
  | error grown states =>
    rw [bind_of_error left, bind_of_error right]
    exact .error grown states

theorem pure {a : α} {b : β} (values : V log a b) :
    Coupled S V log (pure a : ExceptT AnalysisError (StateM σ) α) (pure b) := fun _ _ related =>
  .ok (List.prefix_refl log) related values

theorem imp {U : List Draw → α → β → Prop} {x : ExceptT AnalysisError (StateM σ) α}
    {y : ExceptT AnalysisError (StateM σ) β} (coupled : Coupled S V log x y)
    (weaker : ∀ {later a b}, V later a b → U later a b) : Coupled S U log x y :=
  fun s t related => (coupled s t related).imp weaker

theorem throw {error : AnalysisError} :
    Coupled S V log (throw error : ExceptT AnalysisError (StateM σ) α) (throw error) :=
  fun _ _ related => .error (List.prefix_refl log) related

end Coupled

end Coupled

theorem NameSupply.handOut_grow {supply : NameSupply} {log later : List Draw}
    {drawn : Draw × Symbol} (grown : log <+: later) (member : drawn ∈ supply.handOut log) :
    drawn ∈ supply.handOut later := by
  obtain ⟨more, rfl⟩ := grown
  rw [handOut_append]
  exact List.mem_append_left _ member

theorem getElem?_grow {log later : List Draw} {index : Nat} {draw : Draw} (grown : log <+: later)
    (drawn : log[index]? = some draw) : later[index]? = some draw := by
  obtain ⟨more, rfl⟩ := grown
  rw [List.getElem?_append_left (List.getElem?_eq_some_iff.mp drawn).1]
  exact drawn

/-- Two positions of the counter. Names that are not reserved stand in the forms to be analyzed;
a name for an intermediate value may be one of them only if it is so in both runs. -/
structure Renumbering where
  /-- The namespace of the accessors. -/
  core : String
  first : NameSupply
  second : NameSupply
  reserved : Name → Bool
  apart : ∀ name, reserved name = false → ∀ index,
    (name = (first.temp index none).name ↔ name = (second.temp index none).name)

/-- A `let` or `loop` as lowering writes it. -/
def Form.binder (special : SpecialForm) (pairs : List (Form × Form)) (body : List Form)
    (span : Option Span) : Form :=
  .list (.symbol special.name none [] :: .vector (Binder.flatten pairs) none [] :: body) span []

namespace Renumbering

variable (two : Renumbering)

/-- A form of the input or a qualified name, the same in both runs, or a name for an
intermediate value that is local in both. -/
inductive Atom (known : Nat → Prop) : Form → Form → Prop where
  | own {form : Form} (avoids : form.Avoids two.reserved) : Atom known form form
  | qualified {ns base : String} {span : Option Span} :
      Atom known (.symbol (.qualified ns base) span []) (.symbol (.qualified ns base) span [])
  | temp {index : Nat} {span : Option Span} (isKnown : known index) :
      Atom known (two.first.temp index span).form (two.second.temp index span).form

/-- An atom or the part of an intermediate value. -/
inductive Value (known : Nat → Prop) : Form → Form → Prop where
  | atom {form other : Form} (atoms : two.Atom known form other) : Value known form other
  | accessor {base : String} {args others : List Form} {span : Option Span}
      (ordinary : SpecialForm.ofName? (.qualified two.core base) = none)
      (atoms : List.Forall₂ (two.Atom known) args others) :
      Value known (Pattern.accessor two.core base args span)
        (Pattern.accessor two.core base others span)

/-- Bindings in order, with the intermediate values that are known before and behind them. The
bound places are patterns or symbols. -/
inductive Header {π : Type} (own : π → Prop) (fresh : Symbol → π) (log : List Draw) :
    (Nat → Prop) → List (π × Form) → List (π × Form) → (Nat → Prop) → Prop where
  | nil {known : Nat → Prop} : Header own fresh log known [] [] known
  | own {known after : Nat → Prop} {place : π} {value other : Form} {pairs others : List (π × Form)}
      (isOwn : own place) (values : two.Value known value other)
      (rest : Header own fresh log known pairs others after) :
      Header own fresh log known ((place, value) :: pairs) ((place, other) :: others) after
  | temp {known after : Nat → Prop} {index : Nat} {span : Option Span} {value other : Form}
      {pairs others : List (π × Form)} (drawn : log[index]? = some .temp)
      (values : two.Value known value other)
      (rest : Header own fresh log (fun i => i = index ∨ known i) pairs others after) :
      Header own fresh log known ((fresh (two.first.temp index span), value) :: pairs)
        ((fresh (two.second.temp index span), other) :: others) after

/-- Bindings of patterns. -/
abbrev Patterns (log : List Draw) := two.Header (Form.Avoids two.reserved) Symbol.form log

/-- Bindings of symbols. -/
abbrev Plain (log : List Draw) :=
  two.Header (fun symbol : Symbol => two.reserved symbol.name = false) id log

/-- Forms that are analyzed in the same step of both runs. -/
inductive Twin (log : List Draw) : (Nat → Prop) → Form → Form → Prop where
  | value {known : Nat → Prop} {form other : Form} (values : two.Value known form other) :
      Twin log known form other
  | around {known after : Nat → Prop} {special : SpecialForm} {pairs others : List (Form × Form)}
      {body : List Form} {span : Option Span}
      (kind : special = .letIn ∨ special = .loop ∧ pairs.all fun pair => Pattern.isSimple pair.1)
      (header : two.Patterns log known pairs others after)
      (avoids : ∀ form ∈ body, form.Avoids two.reserved) :
      Twin log known (.binder special pairs body span) (.binder special others body span)
  | nest {known after : Nat → Prop} {special : SpecialForm} {pairs others : List (Form × Form)}
      {form other : Form} {span : Option Span}
      (kind : special = .letIn ∨ special = .loop ∧ pairs.all fun pair => Pattern.isSimple pair.1)
      (header : two.Patterns log known pairs others after)
      (inner : Twin log after form other) :
      Twin log known (.binder special pairs [form] span) (.binder special others [other] span)

variable {two} {log later : List Draw} {known more after : Nat → Prop} {form other : Form}

theorem Atom.mono (wider : ∀ i, known i → more i) (atoms : two.Atom known form other) :
    two.Atom more form other := by
  cases atoms with
  | own avoids => exact .own avoids
  | qualified => exact .qualified
  | temp isKnown => exact .temp (wider _ isKnown)

theorem Value.mono (wider : ∀ i, known i → more i) (values : two.Value known form other) :
    two.Value more form other := by
  cases values with
  | atom atoms => exact .atom (atoms.mono wider)
  | accessor ordinary atoms => exact .accessor ordinary (atoms.imp fun _ _ atom => atom.mono wider)

namespace Header

variable {π : Type} {own : π → Prop} {fresh : Symbol → π} {pairs others tail rest : List (π × Form)}

theorem wider (header : two.Header own fresh log known pairs others after) :
    ∀ i, known i → after i := by
  induction header with
  | nil => exact fun _ isKnown => isKnown
  | own _ _ _ ih => exact ih
  | temp _ _ _ ih => exact fun i isKnown => ih i (.inr isKnown)

theorem grow (grown : log <+: later)
    (header : two.Header own fresh log known pairs others after) :
    two.Header own fresh later known pairs others after := by
  induction header with
  | nil => exact .nil
  | own isOwn values _ ih => exact .own isOwn values ih
  | temp drawn values _ ih => exact .temp (getElem?_grow grown drawn) values ih

theorem mono (wider : ∀ i, known i → more i)
    (header : two.Header own fresh log known pairs others after) :
    ∃ behind, two.Header own fresh log more pairs others behind ∧
      ∀ i, after i → behind i := by
  induction header generalizing more with
  | nil => exact ⟨more, .nil, wider⟩
  | own isOwn values _ ih =>
    obtain ⟨behind, rest, last⟩ := ih wider
    exact ⟨behind, .own isOwn (values.mono wider) rest, last⟩
  | temp drawn values _ ih =>
    obtain ⟨behind, rest, last⟩ := ih fun i isKnown => isKnown.imp_right (wider i)
    exact ⟨behind, .temp drawn (values.mono wider) rest, last⟩

theorem append (first : two.Header own fresh log known pairs others more)
    (second : two.Header own fresh log more tail rest after) :
    two.Header own fresh log known (pairs ++ tail) (others ++ rest) after := by
  induction first with
  | nil => exact second
  | own isOwn values _ ih => exact .own isOwn values (ih second)
  | temp drawn values _ ih => exact .temp drawn values (ih second)

theorem length_eq (header : two.Header own fresh log known pairs others after) :
    pairs.length = others.length := by
  induction header with
  | nil => rfl
  | own _ _ _ ih => simp only [List.length_cons, ih]
  | temp _ _ _ ih => simp only [List.length_cons, ih]

end Header

theorem Twin.grow (grown : log <+: later) (twin : two.Twin log known form other) :
    two.Twin later known form other := by
  induction twin with
  | value values => exact .value values
  | around kind header avoids => exact .around kind (header.grow grown) avoids
  | nest kind header _ ih => exact .nest kind (header.grow grown) ih

theorem Twin.mono (wider : ∀ i, known i → more i) (twin : two.Twin log known form other) :
    two.Twin log more form other := by
  induction twin generalizing more with
  | value values => exact .value (values.mono wider)
  | around kind header avoids =>
    obtain ⟨_, header, _⟩ := header.mono wider
    exact .around kind header avoids
  | nest kind header _ ih =>
    obtain ⟨_, header, last⟩ := header.mono wider
    exact .nest kind header (ih last)

theorem Twin.own (avoids : form.Avoids two.reserved) : two.Twin log known form form :=
  .value (.atom (.own avoids))

theorem Twin.span_eq (twin : two.Twin log known form other) : form.span = other.span := by
  cases twin with
  | value values =>
    cases values with
    | atom atoms => cases atoms <;> rfl
    | accessor => rfl
  | around => rfl
  | nest => rfl

/-- Names bound at once in both runs, and the intermediate values that some of them stand for. -/
inductive Binders (two : Renumbering) (log : List Draw) :
    List Nat → List Symbol → List Symbol → Prop where
  | nil : Binders two log [] [] []
  | own {fresh : List Nat} {symbol : Symbol} {symbols others : List Symbol}
      (isOwn : two.reserved symbol.name = false) (rest : Binders two log fresh symbols others) :
      Binders two log fresh (symbol :: symbols) (symbol :: others)
  | temp {fresh : List Nat} {index : Nat} {span : Option Span} {symbols others : List Symbol}
      (drawn : log[index]? = some .temp) (rest : Binders two log fresh symbols others) :
      Binders two log (index :: fresh) (two.first.temp index span :: symbols)
        (two.second.temp index span :: others)

namespace Binders

variable {fresh more : List Nat} {symbols others tail rest : List Symbol}

theorem grow (grown : log <+: later) (binders : two.Binders log fresh symbols others) :
    two.Binders later fresh symbols others := by
  induction binders with
  | nil => exact .nil
  | own isOwn _ ih => exact .own isOwn ih
  | temp drawn _ ih => exact .temp (getElem?_grow grown drawn) ih

theorem append (first : two.Binders log fresh symbols others)
    (second : two.Binders log more tail rest) :
    two.Binders log (fresh ++ more) (symbols ++ tail) (others ++ rest) := by
  induction first with
  | nil => exact second
  | own isOwn _ ih => exact .own isOwn ih
  | temp drawn _ ih => exact .temp drawn ih

theorem length_eq (binders : two.Binders log fresh symbols others) :
    symbols.length = others.length := by
  induction binders with
  | nil => rfl
  | own _ _ ih => simp only [List.length_cons, ih]
  | temp _ _ ih => simp only [List.length_cons, ih]

/-- A name of the input is bound in both runs or in none. -/
theorem own_iff (binders : two.Binders log fresh symbols others) {name : Name}
    (isOwn : two.reserved name = false) :
    (∃ symbol ∈ symbols, symbol.name = name) ↔ ∃ symbol ∈ others, symbol.name = name := by
  induction binders with
  | nil => rfl
  | own _ _ ih => simp only [List.mem_cons, exists_eq_or_imp, ih]
  | @temp _ index span _ _ _ _ ih =>
    have same := two.apart name isOwn index
    simp only [List.mem_cons, exists_eq_or_imp, ih]
    refine or_congr ⟨fun left => ?_, fun right => ?_⟩ Iff.rfl
    · exact (same.mp left.symm).symm
    · exact (same.mpr right.symm).symm

theorem temp_mem (binders : two.Binders log fresh symbols others) {index : Nat}
    (member : index ∈ fresh) :
    ∃ span, two.first.temp index span ∈ symbols ∧ two.second.temp index span ∈ others := by
  induction binders with
  | nil => contradiction
  | own _ _ ih =>
    obtain ⟨span, left, right⟩ := ih member
    exact ⟨span, List.mem_cons_of_mem _ left, List.mem_cons_of_mem _ right⟩
  | @temp _ _ span _ _ _ _ ih =>
    rcases List.mem_cons.mp member with rfl | listed
    · exact ⟨span, List.mem_cons_self, List.mem_cons_self⟩
    · obtain ⟨span, left, right⟩ := ih listed
      exact ⟨span, List.mem_cons_of_mem _ left, List.mem_cons_of_mem _ right⟩

end Binders

/-- Scopes that look the same: how the value is used, how many values a `recur` takes, whether a
name of the input is local. The known intermediate values are local in both. -/
structure Scopes (two : Renumbering) (known : Nat → Prop) (a b : Scope) : Prop where
  context : a.context = b.context
  defAllowed : a.defAllowed = b.defAllowed
  frame : (a.frame.map fun frame => frame.params.length) =
    b.frame.map fun frame => frame.params.length
  own : ∀ symbol : Symbol, two.reserved symbol.name = false →
    Resolve.isLocal a symbol = Resolve.isLocal b symbol
  temps : ∀ index, known index → ∀ span,
    Resolve.isLocal a (two.first.temp index span) = true ∧
    Resolve.isLocal b (two.second.temp index span) = true

namespace Scopes

variable {a b a' b' : Scope}

theorem refl (scope : Scope) : two.Scopes (fun _ => False) scope scope where
  context := rfl
  defAllowed := rfl
  frame := rfl
  own _ _ := rfl
  temps _ isKnown := isKnown.elim

theorem mono (narrower : ∀ i, known i → more i) (scopes : two.Scopes more a b) :
    two.Scopes known a b :=
  { scopes with temps := fun index isKnown => scopes.temps index (narrower index isKnown) }

theorem withContext (context : Context) (scopes : two.Scopes known a b) :
    two.Scopes known (a.withContext context) (b.withContext context) :=
  ⟨rfl, scopes.defAllowed, scopes.frame, scopes.own, scopes.temps⟩

theorem block (scopes : two.Scopes known a b) : two.Scopes known a.block b.block :=
  ⟨scopes.context, scopes.defAllowed, rfl, scopes.own, scopes.temps⟩

theorem labelled (first second : String) (scopes : two.Scopes known a b) :
    two.Scopes known (a.labelled first) (b.labelled second) :=
  ⟨scopes.context, scopes.defAllowed, scopes.frame, scopes.own, scopes.temps⟩

theorem allowDef (allowed : Bool) (scopes : two.Scopes known a b) :
    two.Scopes known (a.allowDef allowed) (b.allowDef allowed) :=
  ⟨scopes.context, rfl, scopes.frame, scopes.own, scopes.temps⟩

theorem enter {first second : Frame} (sizes : first.params.length = second.params.length)
    (scopes : two.Scopes known a b) : two.Scopes known (a.enter first) (b.enter second) :=
  ⟨scopes.context, scopes.defAllowed, congrArg some sizes, scopes.own, scopes.temps⟩

theorem argument (scopes : two.Scopes known a b) : two.Scopes known a.argument b.argument :=
  (scopes.withContext .expression).block

theorem effect (scopes : two.Scopes known a b) : two.Scopes known a.effect b.effect :=
  (scopes.withContext .statement).block

theorem returning (scopes : two.Scopes known a b) : two.Scopes known a.returning b.returning := by
  unfold Scope.returning
  rw [← scopes.context]
  split
  · exact scopes.withContext .result
  · exact scopes

/-- The names that both scopes are extended by are local in the new ones. -/
theorem bound {fresh : List Nat} {names others : List BoundName} (scopes : two.Scopes known a b)
    (binders : two.Binders log fresh (names.map BoundName.symbol) (others.map BoundName.symbol))
    (left : a.Extends names a') (right : b.Extends others b')
    (context : a'.context = b'.context) (defAllowed : a'.defAllowed = b'.defAllowed)
    (frame : (a'.frame.map fun frame => frame.params.length) =
      b'.frame.map fun frame => frame.params.length) :
    two.Scopes (fun i => i ∈ fresh ∨ known i) a' b' where
  context := context
  defAllowed := defAllowed
  frame := frame
  own symbol isOwn := by
    have same := binders.own_iff isOwn
    simp only [List.mem_map, exists_exists_and_eq_and] at same
    rw [left.isLocal_inner, right.isLocal_inner, scopes.own symbol isOwn, Bool.eq_iff_iff]
    simp only [Bool.or_eq_true, Bool.and_eq_true, BoundName.find?_isSome, same]
  temps index isKnown span := by
    rw [left.isLocal_inner, right.isLocal_inner]
    rcases isKnown with listed | before
    · obtain ⟨_, first, second⟩ := binders.temp_mem listed
      obtain ⟨one, oneListed, oneName⟩ := List.mem_map.mp first
      obtain ⟨other, otherListed, otherName⟩ := List.mem_map.mp second
      have first : (BoundName.find? (two.first.temp index span).name names).isSome = true :=
        BoundName.find?_isSome.mpr ⟨one, oneListed, by rw [oneName]; rfl⟩
      have second : (BoundName.find? (two.second.temp index span).name others).isSome = true :=
        BoundName.find?_isSome.mpr ⟨other, otherListed, by rw [otherName]; rfl⟩
      rw [first, second]
      exact ⟨rfl, rfl⟩
    · obtain ⟨first, second⟩ := scopes.temps index before span
      rw [first, second]
      exact ⟨Bool.or_true _, Bool.or_true _⟩

theorem introduce {fresh : List Nat} {symbols others : List Symbol}
    (scopes : two.Scopes known a b) (binders : two.Binders log fresh symbols others) :
    two.Scopes (fun i => i ∈ fresh ∨ known i) (a.introduce symbols) (b.introduce others) := by
  have written (names : List Symbol) :
      (names.map BoundName.written).map BoundName.symbol = names := by
    simp [Function.comp_def, BoundName.written]
  rw [← written symbols, ← written others] at binders
  exact scopes.bound binders (.introduce a symbols) (.introduce b others) scopes.context
    scopes.defAllowed scopes.frame

theorem extend {ν : Type} {fresh : List Nat} {first second : Binding ν}
    (scopes : two.Scopes known a b)
    (binders : two.Binders log fresh [first.symbol] [second.symbol]) :
    two.Scopes (fun i => i ∈ fresh ∨ known i) (a.extend first) (b.extend second) := by
  have left := Scope.Extends.extend a first
  have right := Scope.Extends.extend b second
  exact scopes.bound binders left right scopes.context scopes.defAllowed scopes.frame

end Scopes

/-- The first supply is behind the log. Its draws have their like in the second run. -/
structure Names (two : Renumbering) (log : List Draw) (first second : NameSupply) : Prop where
  first : first = two.first.after log
  second : ∃ others, List.Forall₂ Draw.Alike log others ∧ second = two.second.after others

/-- The frames of the two runs have nothing to do with each other. -/
structure States (two : Renumbering) (log : List Draw) (s t : State) : Prop where
  names : two.Names log s.names t.names
  registry : s.registry = t.registry

/-- In the first run the name stands in the input or was drawn for an intermediate value. -/
def Accounts (two : Renumbering) (log : List Draw) (bound : BoundName) : Prop :=
  two.reserved bound.symbol.name = false ∨
    ∃ temp, (.temp, temp) ∈ two.first.handOut log ∧ bound.symbol.name = temp.name

theorem Accounts.grow {bound : BoundName} (grown : log <+: later)
    (accounts : two.Accounts log bound) : two.Accounts later bound := by
  refine accounts.imp_right ?_
  rintro ⟨temp, drawn, same⟩
  exact ⟨temp, NameSupply.handOut_grow grown drawn, same⟩

theorem temp_mem_handOut {index : Nat} (drawn : log[index]? = some .temp) :
    (.temp, two.first.temp index none) ∈ two.first.handOut log :=
  NameSupply.mem_handOut.mpr ⟨index, drawn, rfl⟩

theorem Binders.accounts {fresh : List Nat} {symbols others : List Symbol}
    (binders : two.Binders log fresh symbols others) :
    ∀ symbol ∈ symbols, two.Accounts log (.written symbol) := by
  induction binders with
  | nil => exact List.forall_mem_nil _
  | own isOwn _ ih => exact List.forall_mem_cons.mpr ⟨.inl isOwn, ih⟩
  | temp drawn _ ih =>
    exact List.forall_mem_cons.mpr ⟨.inr ⟨_, temp_mem_handOut drawn, rfl⟩, ih⟩

/-- Trees of the same outline. All names that the first one binds are accounted for. -/
structure Trees (two : Renumbering) (log : List Draw) (first second : Node) : Prop where
  outline : first.SameOutline second
  accounts : ∀ bound ∈ first.bound, two.Accounts log bound

theorem Trees.grow {first second : Node} (grown : log <+: later)
    (trees : two.Trees log first second) : two.Trees later first second :=
  ⟨trees.outline, fun bound member => (trees.accounts bound member).grow grown⟩

theorem Trees.grow_all {first second : List Node} (grown : log <+: later)
    (trees : List.Forall₂ (two.Trees log) first second) :
    List.Forall₂ (two.Trees later) first second :=
  trees.imp fun _ _ tree => tree.grow grown

theorem Trees.accounts_all {first second : List Node}
    (trees : List.Forall₂ (two.Trees log) first second) :
    ∀ bound ∈ first.flatMap Node.bound, two.Accounts log bound := by
  induction trees with
  | nil => exact List.forall_mem_nil _
  | cons tree _ ih => exact List.forall_mem_append.mpr ⟨tree.accounts, ih⟩

theorem Trees.node {a b : Scope} {span : Option Span} {shape other : Shape Node}
    (scopes : two.Scopes known a b) (kind : shape.kindName = other.kindName)
    (children : List.Forall₂ (two.Trees log) shape.children other.children)
    (accounts : ∀ bound ∈ shape.bound, two.Accounts log bound) :
    two.Trees log (.mk a span shape) (.mk b span other) where
  outline := .mk kind scopes.context rfl (children.imp fun _ _ tree => tree.outline)
  accounts := by
    rw [Node.bound_eq]
    exact List.forall_mem_append.mpr ⟨accounts, Trees.accounts_all children⟩

end Renumbering

end LispFront
