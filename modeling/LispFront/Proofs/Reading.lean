import LispFront.Proofs.Mentions
import Mathlib.Logic.Function.Basic

/-! A reading gives forms values in any domain: names have those of an environment, and the core
accessors are two functions. Flat bindings are evaluated one after the other (`Reading.run`),
patterns are bound directly, each name to its part of the value (`Reading.bindAll`). -/

namespace LispFront

universe u

/-- The form has the same value everywhere, because no symbol stands in it. -/
def Form.IsConstant (form : Form) : Prop := ∀ name : Name, form.Avoids name.only

/-- What an environment says about the names that stand in a form. -/
def Form.visible {V : Type u} (env : Name → V) (form : Form) : Name → Option V :=
  fun name => if form.mentions name.only then some (env name) else none

structure Reading (V : Type u) where
  /-- The part of a value under a key. -/
  get : V → V → V
  /-- What is left of a value behind a number of elements. -/
  drop : V → V → V
  other : Form → (Name → Option V) → V

theorem Form.mentions_list_of_mem {wanted : Name → Bool} {items : List Form} {item : Form}
    {span : Option Span} {metadata : Entries} (member : item ∈ items)
    (found : item.mentions wanted = true) :
    (Form.list items span metadata).mentions wanted = true := by
  by_contra absent
  have avoids := (Form.avoids_list.mp (Bool.eq_false_iff.mpr absent)).1 item member
  simp [Form.Avoids, found] at avoids

namespace Pattern

/-- One step from a value to a part of it. -/
inductive Step where
  | element (key : Form)
  | remainder (count : Nat)

def Step.IsConstant : Step → Prop
  | .element key => key.IsConstant
  | .remainder _ => True

/-- A name that a pattern binds, and the way to its part of the value. -/
structure Target where
  name : Name
  path : List Step

/-- The targets of a pattern that is bound to a part. An ignored place has none. -/
def Target.under (step : Step) (pattern : Form) (targets : List Target) : List Target :=
  if pattern.isNamed ignoreMark then []
  else targets.map fun target => { target with path := step :: target.path }

mutual
def targets : Form → List Target
  | .symbol name _ _ => [{ name, path := [] }]
  | .vector items _ _ => itemTargets 0 items
  | .map entries _ _ => entryTargets entries
  | _ => []

def itemTargets (index : Nat) : List Form → List Target
  | [] => []
  | item :: rest =>
    if item.isNamed restMark then restTargets index rest
    else Target.under (.element (.int index)) item (targets item) ++ itemTargets (index + 1) rest

def restTargets (index : Nat) : List Form → List Target
  | [pattern] => Target.under (.remainder index) pattern (targets pattern)
  | _ => []

def entryTargets : List (Form × Form) → List Target
  | [] => []
  | (key, pattern) :: rest =>
    Target.under (.element key) pattern (targets pattern) ++ entryTargets rest
end

end Pattern

namespace Reading

variable {V : Type u} (reading : Reading V) (core : String)

def eval (env : Name → V) : Form → V
  | .symbol name _ _ => env name
  | .list [.symbol head place own, first, second] span metadata =>
    if head = .qualified core "get" then reading.get (eval env first) (eval env second)
    else if head = .qualified core "drop" then reading.drop (eval env first) (eval env second)
    else
      let form := .list [.symbol head place own, first, second] span metadata
      reading.other form (form.visible env)
  | form => reading.other form (form.visible env)

/-- Evaluates plain bindings one after the other. -/
def run : List (Symbol × Form) → (Name → V) → Name → V
  | [], env => env
  | (symbol, value) :: rest, env =>
    run rest (Function.update env symbol.name (reading.eval core env value))

/-- The value of a form in which no symbol stands. -/
def constant (form : Form) : V := reading.other form fun _ => none

def take (value : V) : Pattern.Step → V
  | .element key => reading.get value (reading.constant key)
  | .remainder count => reading.drop (reading.constant (.int count)) value

/-- Gives each name its part of the value. Of several for one name the last one stays. -/
def assign (value : V) : List Pattern.Target → (Name → V) → Name → V
  | [], env => env
  | target :: rest, env =>
    assign value rest (Function.update env target.name (target.path.foldl reading.take value))

/-- Binds patterns from left to right. Each value sees the names before it. -/
def bindAll : List (Form × Form) → (Name → V) → Name → V
  | [], env => env
  | (pattern, value) :: rest, env =>
    bindAll rest (reading.assign (reading.eval core env value) (Pattern.targets pattern) env)

variable {reading core} {env other : Name → V}

theorem visible_congr {form : Form}
    (same : ∀ name, form.mentions name.only = true → env name = other name) :
    form.visible env = form.visible other := by
  funext name
  by_cases mentioned : form.mentions name.only = true
  · simp [Form.visible, mentioned, same name mentioned]
  · simp [Form.visible, mentioned]

/-- A value depends only on the names that stand in the form. -/
theorem eval_congr {form : Form}
    (same : ∀ name, form.mentions name.only = true → env name = other name) :
    reading.eval core env form = reading.eval core other form := by
  fun_induction eval reading core env form with
  | case1 name span metadata =>
    rw [eval]
    exact same name (by simp [Form.mentions, Name.only])
  | case2 place own first second span metadata ihFirst ihSecond =>
    have firstSame := ihFirst fun name found =>
      same name (Form.mentions_list_of_mem (by simp) found)
    have secondSame := ihSecond fun name found =>
      same name (Form.mentions_list_of_mem (by simp) found)
    rw [eval, if_pos rfl, firstSame, secondSame]
  | case3 place own first second span metadata distinct ihFirst ihSecond =>
    have firstSame := ihFirst fun name found =>
      same name (Form.mentions_list_of_mem (by simp) found)
    have secondSame := ihSecond fun name found =>
      same name (Form.mentions_list_of_mem (by simp) found)
    rw [eval, if_neg distinct, if_pos rfl, firstSame, secondSame]
  | case4 head place own first second span metadata notGet notDrop form =>
    rw [eval, if_neg notGet, if_neg notDrop, visible_congr same]
  | case5 form notSymbol notCall =>
    rw [eval.eq_def, visible_congr same]
    split
    · exact (notSymbol _ _ _ rfl).elim
    · exact (notCall _ _ _ _ _ _ _ rfl).elim
    · rfl

theorem eval_constant {form : Form} (constant : form.IsConstant) :
    reading.eval core env form = reading.constant form := by
  have unseen : form.visible env = fun _ => none := by
    funext name
    have avoids : form.mentions name.only = false := constant name
    simp [Form.visible, avoids]
  have noSymbol {name : Name} {span : Option Span} {metadata : Entries}
      (avoids : (Form.symbol name span metadata).Avoids name.only) : False := by
    have apart := (Form.avoids_symbol.mp avoids).1
    simp [Name.only] at apart
  unfold eval
  split
  · exact (noSymbol (constant _)).elim
  · exact (noSymbol ((Form.avoids_list.mp (constant _)).1 _ List.mem_cons_self)).elim
  · rw [unseen]
    rfl

theorem eval_element {whole : Symbol} {key : Form} {span : Option Span} :
    reading.eval core env (Pattern.element core whole key span) =
      reading.get (env whole.name) (reading.eval core env key) := by
  simp [Pattern.element, Pattern.accessor, Symbol.form, eval]

theorem eval_remainder {whole : Symbol} {index : Nat} {span : Option Span} :
    reading.eval core env (Pattern.remainder core whole index span) =
      reading.drop (reading.constant (.int index)) (env whole.name) := by
  have distinct : Name.qualified core "drop" ≠ .qualified core "get" := by simp [Name.qualified]
  have number : reading.eval core env (.int index) = reading.constant (.int index) :=
    eval_constant fun _ => rfl
  rw [← number]
  simp [Pattern.remainder, Pattern.accessor, Symbol.form, eval, distinct]

theorem run_append {first second : List (Symbol × Form)} :
    reading.run core (first ++ second) env =
      reading.run core second (reading.run core first env) := by
  induction first generalizing env with
  | nil => rfl
  | cons pair rest ih => exact ih

variable {value : V} {first second targets : List Pattern.Target}

theorem assign_append :
    reading.assign value (first ++ second) env =
      reading.assign value second (reading.assign value first env) := by
  induction first generalizing env with
  | nil => rfl
  | cons target rest ih => exact ih

theorem assign_under {step : Pattern.Step} {pattern : Form} :
    reading.assign value (Pattern.Target.under step pattern targets) env =
      if pattern.isNamed Pattern.ignoreMark then env
      else reading.assign (reading.take value step) targets env := by
  unfold Pattern.Target.under
  split
  · rfl
  · induction targets generalizing env with
    | nil => rfl
    | cons target rest ih => exact ih

theorem assign_of_absent {name : Name} (absent : ∀ target ∈ targets, target.name ≠ name) :
    reading.assign value targets env name = env name := by
  induction targets generalizing env with
  | nil => rfl
  | cons target rest ih =>
    obtain ⟨own, others⟩ := List.forall_mem_cons.mp absent
    rw [assign, ih others, Function.update_of_ne own.symm]

end Reading

end LispFront
