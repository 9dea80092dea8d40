import LispFront.Analysis.Analyzer
import LispFront.Proofs.Outcome

/-! An analysis may fail because of what is written, or because its bound on nested steps is
reached. The functions that only read a form or lower its patterns know nothing of that bound, so
all their errors are of the first kind. -/

namespace LispFront

variable {α β : Type}

/-- The error is about what is written. -/
def AnalysisError.Genuine (error : AnalysisError) : Prop := error.fault ≠ .nestingLimit

@[simp] theorem genuine_mk {fault : Fault} {span : Option Span} {cause : Option String} :
    AnalysisError.Genuine { fault, span, cause } ↔ fault ≠ .nestingLimit := Iff.rfl

@[simp] theorem genuine_atForm {fault : Fault} {form : Form} :
    (AnalysisError.atForm fault form).Genuine ↔ fault ≠ .nestingLimit := Iff.rfl

/-- If it fails, it fails because of what is written. -/
def Frank (result : Except AnalysisError α) : Prop :=
  ∀ error, result = .error error → error.Genuine

@[simp] theorem frank_ok {a : α} : Frank (.ok a) := fun _ failed => by contradiction

@[simp] theorem frank_pure {a : α} : Frank (pure a) := frank_ok

@[simp] theorem frank_error {error : AnalysisError} :
    Frank (.error error : Except AnalysisError α) ↔ error.Genuine := by
  simp [Frank]

theorem Frank.bind {result : Except AnalysisError α} {f : α → Except AnalysisError β}
    (first : Frank result) (rest : ∀ a, Frank (f a)) : Frank (result >>= f) := by
  cases result with
  | ok a => exact rest a
  | error error => exact frank_error.mpr (frank_error.mp first)

section Readers

variable {args forms : List Form} {span : Option Span}

theorem Binder.frank_header {form : SpecialForm} : Frank (header form args span) := by
  unfold header
  split
  · simp
  · split <;> simp
  · simp

theorem Guarded.frank_clauses : Frank (clauses forms) := by
  induction forms with
  | nil => exact frank_ok
  | cons form rest ih =>
    unfold clauses
    split
    · exact ih.bind fun _ => frank_pure
    · split <;> simp

theorem Guarded.frank_parts : Frank (parts forms) :=
  frank_clauses.bind fun _ => frank_pure

theorem frank_definedName {form : SpecialForm} : Frank (definedName form args span) := by
  unfold definedName
  split <;> simp

theorem Definition.frank_parts : Frank (parts args span) := by
  unfold parts
  split <;> simp

theorem Definition.frank_collectMetadata {name : Symbol} {form : Option Form} :
    Frank (collectMetadata name form span) := by
  unfold collectMetadata
  split
  · refine Frank.bind ?_ fun _ => frank_pure
    unfold Entries.ofMetadataForm
    split <;> simp
  · exact frank_pure

theorem frank_plainSymbols {fault : Fault} (genuine : fault ≠ .nestingLimit) :
    Frank (plainSymbols fault forms) := by
  induction forms with
  | nil => exact frank_ok
  | cons form rest ih =>
    unfold plainSymbols
    split
    · exact ih.bind fun _ => frank_pure
    · simpa using genuine

theorem InterfaceMethod.frank_ofForm {form : Form} : Frank (ofForm form) := by
  unfold ofForm
  split
  · split
    · simp
    · split
      · refine (frank_plainSymbols (by simp)).bind fun _ => ?_
        split <;> simp
      · simp
  · simp

theorem InterfaceMethod.frank_ofForms : Frank (ofForms forms) := by
  induction forms with
  | nil => exact frank_ok
  | cons form rest ih => exact frank_ofForm.bind fun _ => ih.bind fun _ => frank_pure

namespace Struct

theorem frank_group {groups : List Group} : Frank (group groups forms) := by
  induction groups, forms using group.induct with
  | case1 => exact frank_ok
  | case2 groups name span metadata rest ih => exact ih
  | case3 groups items span metadata rest more added ih => simpa only [group, added] using ih
  | case4 groups items span metadata rest refused => simp [group, refused]
  | case5 groups other rest _ _ => simp [group]

theorem frank_fields : Frank (fields args span) := by
  unfold fields
  split
  · exact frank_plainSymbols (by simp)
  · simp

theorem frank_methodName {method : MethodForm} {definition : Definition} {declared : List String} :
    Frank (methodName method definition declared) := by
  unfold methodName
  split
  · simp
  · split <;> simp

end Struct

end Readers

namespace Resolve

variable {core : String} {registry : Registry} {scope : Scope} {symbol : Symbol}

theorem frank_global? : Frank (global? core registry symbol) := by
  unfold global?
  split
  · split <;> simp
  · simp

theorem frank_shape {ν : Type} : Frank (shape core registry scope symbol : Except _ (Shape ν)) := by
  unfold shape
  split
  · simp
  split
  · simp
  split
  · simp
  split
  next failed => exact frank_error.mpr (frank_global? _ failed)
  · simp
  · simp

theorem frank_expandable? : Frank (expandable? core registry scope symbol) := by
  unfold expandable?
  split
  · simp
  · exact frank_global?

end Resolve

theorem Struct.frank_interface? {core : String} {registry : Registry} {symbol : Symbol} :
    Frank (Struct.interface? core registry symbol) := by
  refine Resolve.frank_global?.bind fun found => ?_
  split
  · simp [throw, throwThe, MonadExceptOf.throw]
  · split
    · simp [throw, throwThe, MonadExceptOf.throw]
    · exact frank_pure

namespace Settings

variable {settings : Settings} {span : Option Span}

theorem frank_checkSegments {segments : List String} :
    Frank (settings.checkSegments span segments) := by
  induction segments with
  | nil => exact frank_ok
  | cons segment rest ih =>
    unfold checkSegments
    split
    · simp
    · split
      · exact ih
      · simp

theorem frank_checkNamespace {ns : String} : Frank (settings.checkNamespace ns span) :=
  frank_checkSegments

end Settings

namespace Declaration

variable {clause : Form} {forms : List Form} {settings : Settings} {span : Option Span}

theorem frank_uses : Frank (uses clause forms) := by
  fun_induction uses clause forms with
  | case6 _ _ _ _ _ _ _ _ _ ih => exact ih.bind fun _ => frank_pure
  | case7 _ _ _ _ _ _ ih => exact ih.bind fun _ => frank_pure
  | _ => simp

theorem frank_referred : Frank (referred forms) := by
  induction forms with
  | nil => exact frank_ok
  | cons form rest ih =>
    unfold referred
    split
    · simp
    · exact ih.bind fun _ => frank_pure

theorem frank_option {mark value : Form} : Frank (option clause mark value) := by
  unfold option
  split
  · split
    · exact frank_referred.bind fun _ => frank_pure
    · simp
  · split <;> simp

theorem frank_options : Frank (options clause forms) := by
  induction forms using options.induct with
  | case1 => exact frank_ok
  | case2 => simp [options]
  | case3 mark value rest ih =>
    exact frank_option.bind fun _ => ih.bind fun _ => frank_pure

theorem frank_ofRequire : Frank (ofRequire settings clause forms) := by
  unfold ofRequire
  split
  · simp
  · refine Settings.frank_checkNamespace.bind fun _ => ?_
    exact frank_options.bind fun _ => frank_pure

theorem frank_files : Frank (files forms) := by
  induction forms with
  | nil => exact frank_ok
  | cons form rest ih =>
    unfold files
    split
    · contradiction
    next same =>
      obtain ⟨_, rfl⟩ := List.cons.inj same
      exact ih.bind fun _ => frank_pure
    · simp

theorem frank_ofClause : Frank (ofClause settings clause) := by
  unfold ofClause
  split
  · split
    · exact frank_uses.bind fun _ => frank_pure
    · exact frank_ofRequire
    · exact frank_files.bind fun _ => frank_pure
    · simp
  · simp

theorem frank_ofClauses : Frank (ofClauses settings forms) := by
  induction forms with
  | nil => exact frank_ok
  | cons form rest ih => exact frank_ofClause.bind fun _ => ih.bind fun _ => frank_pure

theorem frank_ofArgs : Frank (ofArgs settings forms span) := by
  unfold ofArgs
  split
  · simp
  · split
    · simp
    · refine Settings.frank_checkNamespace.bind fun _ => ?_
      exact frank_ofClauses.bind fun _ => frank_pure

theorem frank_inNamespace {arg : Form} : Frank (inNamespace arg) := by
  unfold inNamespace
  split
  · simp
  · split <;> simp
  · split <;> simp

end Declaration

/-- A property of drawings that the steps of lowering have and that sequences of them keep. -/
structure LoweringLaw (Q : {α : Type} → NameM α → Prop) : Prop where
  pure : ∀ {α : Type} {a : α}, Q (pure a : NameM α)
  throw : ∀ {α : Type} {error : AnalysisError}, error.Genuine → Q (throw error : NameM α)
  bind : ∀ {α β : Type} {draw : NameM α} {f : α → NameM β}, Q draw → (∀ a, Q (f a)) →
    Q (draw >>= f)
  drawTemp : ∀ {span : Option Span}, Q (NameSupply.drawTemp span)

namespace LoweringLaw

variable {Q : {α : Type} → NameM α → Prop} (law : LoweringLaw Q)
variable {core : String} {span : Option Span} {pairs : List (Form × Form)} {items : List Form}

include law

theorem unlessIgnored {pattern : Form} {bindings : NameM (List (Symbol × Form))}
    (inner : Q bindings) : Q (Pattern.unlessIgnored pattern bindings) := by
  unfold Pattern.unlessIgnored
  split
  · exact law.pure
  · exact inner

mutual
theorem lower : ∀ (pattern value : Form), Q (Pattern.lower core pattern value)
  | .symbol name span metadata, value => by
    unfold Pattern.lower
    split
    · exact law.throw (by simp)
    · exact law.pure
  | .vector items span metadata, value => by
    unfold Pattern.lower
    exact law.bind law.drawTemp fun _ => law.bind (lowerItems items) fun _ => law.pure
  | .map entries span metadata, value => by
    unfold Pattern.lower
    exact law.bind law.drawTemp fun _ => law.bind (lowerEntries entries) fun _ => law.pure
  | .nil, _ => law.throw (by simp)
  | .bool _, _ => law.throw (by simp)
  | .int _, _ => law.throw (by simp)
  | .float _, _ => law.throw (by simp)
  | .str _, _ => law.throw (by simp)
  | .keyword _, _ => law.throw (by simp)
  | .list .., _ => law.throw (by simp)

theorem lowerItems : ∀ (items : List Form) {whole : Symbol} {span : Option Span}
    {index : Nat}, Q (Pattern.lowerItems core whole span index items)
  | [], _, _, _ => law.pure
  | item :: rest, whole, span, index => by
    unfold Pattern.lowerItems
    split
    · exact lowerRest rest
    · exact law.bind (law.unlessIgnored (lower item _)) fun _ =>
        law.bind (lowerItems rest) fun _ => law.pure

theorem lowerRest : ∀ (items : List Form) {whole : Symbol} {span : Option Span}
    {index : Nat}, Q (Pattern.lowerRest core whole span index items)
  | [], _, _, _ => law.pure
  | [pattern], _, _, _ => law.unlessIgnored (lower pattern _)
  | _ :: _ :: _, _, _, _ => law.throw (by simp)

theorem lowerEntries : ∀ (entries : List (Form × Form)) {whole : Symbol} {span : Option Span},
    Q (Pattern.lowerEntries core whole span entries)
  | [], _, _ => law.pure
  | (key, pattern) :: rest, whole, span => by
    unfold Pattern.lowerEntries
    exact law.bind (law.unlessIgnored (lower pattern _)) fun _ =>
      law.bind (lowerEntries rest) fun _ => law.pure
end

theorem lowerPairs : Q (Pattern.lowerPairs core pairs) := by
  induction pairs with
  | nil => exact law.pure
  | cons pair rest ih => exact law.bind (law.lower _ _) fun _ => law.bind ih fun _ => law.pure

theorem nameFor {pattern : Form} : Q (Pattern.nameFor pattern) := by
  unfold Pattern.nameFor
  split
  · exact law.pure
  · exact law.bind law.drawTemp fun _ => law.pure

theorem nameForOption {pattern : Option Form} : Q (Pattern.nameForOption pattern) := by
  cases pattern with
  | none => exact law.pure
  | some pattern => exact law.bind law.nameFor fun _ => law.pure

theorem loopHeader : Q (Pattern.loopHeader pairs) := by
  induction pairs with
  | nil => exact law.pure
  | cons pair rest ih =>
    unfold Pattern.loopHeader
    split
    · exact law.bind ih fun _ => law.pure
    · exact law.bind law.drawTemp fun _ => law.bind ih fun _ => law.pure

theorem lowerLoop {body : List Form} : Q (Pattern.lowerLoop pairs body span) :=
  law.bind law.loopHeader fun _ => law.pure

theorem nameAll : Q (Parameters.nameAll items) := by
  induction items with
  | nil => exact law.pure
  | cons pattern rest ih => exact law.bind law.nameFor fun _ => law.bind ih fun _ => law.pure

theorem nameRest : Q (Parameters.nameRest items span) := by
  unfold Parameters.nameRest
  split
  · exact law.bind law.drawTemp fun _ => law.pure
  · exact law.nameFor
  · exact law.bind law.nameFor fun _ => law.throw (by simp)

theorem lowerParameters : Q (Parameters.lower items span) := by
  refine law.bind law.nameAll fun ⟨symbols, bindings⟩ => ?_
  dsimp only
  split
  · exact law.pure
  · exact law.bind law.nameRest fun _ => law.pure

end LoweringLaw

/-- The same for drawings, from any supply of names. -/
def FrankNames (draw : NameM α) : Prop := ∀ names, Frank (draw names).1

theorem FrankNames.bind {draw : NameM α} {f : α → NameM β} (first : FrankNames draw)
    (rest : ∀ a, FrankNames (f a)) : FrankNames (draw >>= f) := by
  intro names
  match run : draw names with
  | (.ok a, more) =>
    rw [bind_of_ok run]
    exact rest a more
  | (.error error, more) =>
    rw [bind_of_error run]
    have failed := first names
    rw [run] at failed
    exact frank_error.mpr (frank_error.mp failed)

theorem FrankNames.draw {draw : Draw} : FrankNames (NameSupply.draw draw) := fun _ => frank_ok

/-- Lowering fails only because of what is written. -/
theorem frank_lowering : LoweringLaw FrankNames where
  pure := fun _ => frank_ok
  throw genuine := fun _ => frank_error.mpr genuine
  bind := .bind
  drawTemp := FrankNames.draw.bind fun _ _ => frank_ok

end LispFront
