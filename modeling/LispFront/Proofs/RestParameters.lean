import LispFront.Proofs.Grammar

/-! A parameter list and a vector pattern both allow one pattern behind the first mark. A pattern
counts everything that stands there, a parameter list leaves further marks out of account. So there
are vectors of plain symbols that only a parameter list takes (`rest_rules_agree_iff`). -/

namespace LispFront

namespace Parameters

/-- The patterns behind the first mark, without further marks. -/
def restPatterns (items : List Form) : List Form :=
  (Pattern.behind items).filter fun item => !isMark item

/-- The error for the patterns behind the mark, if they are too many. -/
def crowding : List Form → Option AnalysisError
  | _ :: extra :: _ => some (.atForm .crowdedRest extra)
  | _ => none

theorem crowding_eq_none {patterns : List Form} :
    crowding patterns = none ↔ patterns.length ≤ 1 := by
  match patterns with
  | [] => simp [crowding]
  | [_] => simp [crowding]
  | _ :: _ :: _ => simp [crowding]

theorem message_of_crowding {patterns : List Form} {error : AnalysisError}
    (refused : crowding patterns = some error) : error.message = Fault.message .crowdedRest := by
  match patterns with
  | [] => contradiction
  | [_] => contradiction
  | _ :: _ :: _ =>
    obtain rfl := Option.some.inj refused
    rfl

theorem judged_nameFor (pattern : Form) : Judged none (Pattern.nameFor pattern) := by
  unfold Pattern.nameFor
  split
  · exact .pure
  · exact Judged.drawTemp.bind fun _ => .pure

theorem judged_nameAll (items : List Form) : Judged none (nameAll items) := by
  induction items with
  | nil => exact .pure
  | cons pattern rest ih =>
    exact (judged_nameFor pattern).bind fun _ => ih.bind fun _ => .pure

theorem judged_nameRest (items : List Form) (span : Option Span) :
    Judged (crowding (items.filter fun item => !isMark item)) (nameRest items span) := by
  unfold nameRest
  split
  next none =>
    rw [none]
    exact Judged.drawTemp.bind fun _ => .pure
  next pattern one =>
    rw [one]
    exact judged_nameFor pattern
  next pattern extra others two =>
    rw [two]
    exact (judged_nameFor pattern).bind fun _ => .throw

/-- Parameters are refused only for what stands behind the mark. -/
theorem judged_lower (items : List Form) (span : Option Span) :
    Judged (crowding (restPatterns items)) (lower items span) := by
  refine (judged_nameAll _).bind fun ⟨symbols, bindings⟩ => ?_
  unfold restPatterns Pattern.behind
  cases items.dropWhile fun item => !isMark item with
  | nil => exact .pure
  | cons mark behind =>
    have rest := (judged_nameRest behind span).bind fun rest => Judged.pure
      (a := Parameters.mk (symbols ++ [rest.1]) true (bindings ++ rest.2))
    rwa [Option.or_none] at rest

end Parameters

namespace Pattern

variable {items : List Form} {span : Option Span} {metadata : Entries}

theorem refusal_of_isSimple {pattern : Form} (simple : isSimple pattern = true) :
    refusal pattern = none := by
  cases pattern with
  | symbol name span metadata =>
    have plain : name.isQualified = false := by
      simpa [isSimple, Form.plainSymbol?, Form.symbol?, Symbol.isQualified] using simple
    simp [refusal, plain]
  | _ => contradiction

/-- A vector of plain symbols is refused only as a whole. -/
theorem refusal_vector_of_simple (plain : ∀ item ∈ items, isSimple item = true) :
    refusal (.vector items span metadata) =
      if (behind items).length ≤ 1 then none else some { fault := .crowdedRest, span } := by
  have front : (front items).findSome? refusal = none :=
    List.findSome?_eq_none_iff.mpr fun item member =>
      refusal_of_isSimple (plain item (mem_of_mem_front member))
  have behind : (behind items).findSome? refusal = none :=
    List.findSome?_eq_none_iff.mpr fun item member =>
      refusal_of_isSimple (plain item (mem_of_mem_behind member))
  rw [refusal, itemsRefusal_eq, front, behind, Option.none_or]

end Pattern

open Pattern Parameters in
/-- Of the vectors of plain symbols, a pattern takes those with at most one element behind the first
mark, and a parameter list those with at most one behind it that is no mark. What either refuses it
refuses with the same message. So they agree unless the first mark has several elements behind it
and all of them, or all but one, are marks. -/
theorem rest_rules_agree_iff {items : List Form} (plain : ∀ item ∈ items, isSimple item = true)
    (core : String) (span : Option Span) (metadata : Entries) (value : Form) (n : NameSupply) :
    (Accepts (lowerPairs core [(.vector items span metadata, value)]) n ↔
      (behind items).length ≤ 1) ∧
    (Accepts (Parameters.lower items span) n ↔ (restPatterns items).length ≤ 1) ∧
    (1 < (behind items).length → Rejects (lowerPairs core [(.vector items span metadata, value)]) n
      "Unsupported binding form, only one symbol can follow the & parameter") ∧
    (1 < (restPatterns items).length → Rejects (Parameters.lower items span) n
      "Unsupported binding form, only one symbol can follow the & parameter") ∧
    ((Accepts (Parameters.lower items span) n ↔
        Accepts (lowerPairs core [(.vector items span metadata, value)]) n) ↔
      (behind items).length ≤ 1 ∨ 1 < (restPatterns items).length) := by
  have pattern := @judged_lowerPairs core [(.vector items span metadata, value)]
  have verdict : [(Form.vector items span metadata, value)].findSome? (fun pair => refusal pair.1) =
      if (behind items).length ≤ 1 then none else some { fault := .crowdedRest, span } := by
    rw [← refusal_vector_of_simple plain, List.findSome?_singleton]
  rw [verdict] at pattern
  have params := judged_lower items span
  have taken : Accepts (lowerPairs core [(.vector items span metadata, value)]) n ↔
      (behind items).length ≤ 1 := by
    rw [pattern.accepts_iff]
    simp
  have takenParams : Accepts (Parameters.lower items span) n ↔ (restPatterns items).length ≤ 1 :=
    params.accepts_iff.trans crowding_eq_none
  have fewer : (restPatterns items).length ≤ (behind items).length := List.length_filter_le _ _
  refine ⟨taken, takenParams, fun crowded => ?_, fun crowded => ?_, ?_⟩
  · rw [if_neg (by omega)] at pattern
    exact pattern.rejects n
  · cases refused : crowding (restPatterns items) with
    | none =>
      have few := crowding_eq_none.mp refused
      omega
    | some error =>
      rw [refused] at params
      have rejected := params.rejects n
      rwa [message_of_crowding refused] at rejected
  · rw [taken, takenParams]
    omega

/-- `[& y z]` -/
def Form.crowdedRest : List Form := [.plainSymbol "&", .plainSymbol "y", .plainSymbol "z"]

theorem rest_rules_agree_iff_crowded :
    (∀ item ∈ Form.crowdedRest, Pattern.isSimple item = true) ∧
    Rejects (Pattern.lowerPairs "core" [(.vector Form.crowdedRest none [], .nil)]) {}
      "Unsupported binding form, only one symbol can follow the & parameter" ∧
    Rejects (Parameters.lower Form.crowdedRest none) {}
      "Unsupported binding form, only one symbol can follow the & parameter" := by
  have plain : ∀ item ∈ Form.crowdedRest, Pattern.isSimple item = true :=
    List.all_eq_true.mp (by decide)
  obtain ⟨_, _, pattern, params, _⟩ := rest_rules_agree_iff plain "core" none [] .nil {}
  exact ⟨plain, pattern (by decide), params (by decide)⟩

/-- `[& & a]` -/
def Form.markTwice : List Form := [.plainSymbol "&", .plainSymbol "&", .plainSymbol "a"]

/-- Two marks in front of a symbol: a parameter list, but no pattern. -/
theorem second_mark_divides : (∀ item ∈ Form.markTwice, Pattern.isSimple item = true) ∧
    Accepts (Parameters.lower Form.markTwice none) {} ∧
    ¬ Accepts (Pattern.lowerPairs "core" [(.vector Form.markTwice none [], .nil)]) {} := by
  refine ⟨List.all_eq_true.mp (by decide), ⟨_, _, rfl⟩, fun accepted => ?_⟩
  have verdict := (Pattern.judged_lowerPairs _).accepts_iff.mp accepted
  contradiction

end LispFront
