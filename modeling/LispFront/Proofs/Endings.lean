import LispFront.Proofs.Outcome

/-! `Reads E Q` says of a result that it satisfies `Q`, or is an error that satisfies `E`. `Ends E
Q` says the same of a step, whatever the state is that it starts from. Both are built up bind by
bind, so that one pass over a rule tells what it gives and how it fails. -/

namespace LispFront

variable {α β : Type} {E : AnalysisError → Prop} {P : α → Prop} {Q : β → Prop}

def Reads (E : AnalysisError → Prop) (P : α → Prop) : Except AnalysisError α → Prop
  | .ok a => P a
  | .error error => E error

namespace Reads

theorem bind {result : Except AnalysisError α} {f : α → Except AnalysisError β}
    (first : Reads E P result) (rest : ∀ a, P a → Reads E Q (f a)) : Reads E Q (result >>= f) := by
  cases result with
  | ok a => exact rest a first
  | error error => exact first

/-- The property may rely on what exactly was read. -/
theorem given {result : Except AnalysisError α} {R : α → Prop} (first : Reads E P result)
    (read : ∀ a, result = .ok a → P a → R a) : Reads E R result := by
  cases result with
  | ok a => exact read a rfl first
  | error error => exact first

end Reads

section Steps

variable {σ : Type}

def Ends (E : AnalysisError → Prop) (P : α → Prop) (step : ExceptT AnalysisError (StateM σ) α) :
    Prop := ∀ state, Reads E P (step state).1

namespace Ends

theorem gives {step : ExceptT AnalysisError (StateM σ) α} (ends : Ends E P step) {i j : σ} {a : α}
    (run : Gives step i a j) : P a := by
  have result := ends i
  rw [run] at result
  exact result

theorem fails {step : ExceptT AnalysisError (StateM σ) α} (ends : Ends E P step) {i j : σ}
    {error : AnalysisError} (run : Fails step i error j) : E error := by
  have result := ends i
  rw [run] at result
  exact result

theorem pure {a : α} (own : P a) :
    Ends E P (pure a : ExceptT AnalysisError (StateM σ) α) := fun _ => own

theorem throw {error : AnalysisError} (own : E error) :
    Ends E P (throw error : ExceptT AnalysisError (StateM σ) α) := fun _ => own

theorem bind {step : ExceptT AnalysisError (StateM σ) α}
    {f : α → ExceptT AnalysisError (StateM σ) β} (first : Ends E P step)
    (rest : ∀ a, P a → Ends E Q (f a)) : Ends E Q (step >>= f) := by
  intro i
  rcases run : step i with ⟨outcome, j⟩
  cases outcome with
  | ok a =>
    rw [bind_of_ok run]
    exact rest a (first.gives run) j
  | error error =>
    rw [bind_of_error run]
    exact first.fails run

theorem mono {step : ExceptT AnalysisError (StateM σ) α} {R : α → Prop} (ends : Ends E P step)
    (weaker : ∀ a, P a → R a) : Ends E R step := fun i =>
  (ends i).given fun a _ own => weaker a own

end Ends

end Steps

namespace Ends

theorem fail {fault : Fault} {span : Option Span} (own : E { fault, span }) :
    Ends E P (AnalyzeM.fail fault span) := throw own

theorem failAt {fault : Fault} {form : Form} (own : E (.atForm fault form)) :
    Ends E P (AnalyzeM.failAt fault form) := throw own

theorem ofExcept {result : Except AnalysisError α} (reads : Reads E P result) :
    Ends E P (AnalyzeM.ofExcept result) := fun _ => reads

theorem ofNames {draw : NameM α} (ends : Ends E P draw) : Ends E P (AnalyzeM.ofNames draw) :=
  fun state => ends state.names

theorem registry : Ends E (fun _ => True) AnalyzeM.registry := fun _ => trivial

theorem changeRegistry {change : Registry → Registry} :
    Ends E (fun _ => True) (AnalyzeM.changeRegistry change) := fun _ => trivial

theorem newFrame {params : List Symbol} : Ends E (fun _ => True) (AnalyzeM.newFrame params) :=
  fun _ => trivial

theorem activate {frame : Frame} : Ends E (fun _ => True) (AnalyzeM.activate frame) :=
  fun _ => trivial

theorem onFailure {undo : Registry → Registry} {step : AnalyzeM α} (ends : Ends E P step) :
    Ends E P (AnalyzeM.onFailure undo step) := by
  intro s
  rcases run : step s with ⟨outcome, t⟩
  cases outcome with
  | ok a =>
    rw [gives_onFailure.mpr run]
    exact ends.gives run
  | error error =>
    rw [AnalyzeM.onFailure_of_error run]
    exact ends.fails run

/-- A refused definition is reported at the name. -/
theorem define {name : Symbol} {metadata : Entries}
    (own : ∀ fault cause, E { fault, span := name.span, cause }) :
    Ends E (fun _ => True) (AnalyzeM.define name metadata) := by
  refine registry.bind fun registry _ => ?_
  split
  · exact changeRegistry.bind fun _ _ => pure trivial
  · exact throw (own _ _)

end Ends

end LispFront
