import LispFront.Proofs.Faults

/-! What was drawn from a supply, in order. Names with different numbers differ, whatever their
stems are (`NameSupply.numbered_inj`), so no name is handed out twice (`NameSupply.nodup_handOut`).
Lowering draws names for intermediate values and nothing else (`temps_lowering`). -/

namespace LispFront

variable {α β : Type}

theorem underscore_not_mem_digits (number : Nat) : '_' ∉ (toString number).toList := by
  rw [Nat.toString_eq_repr, Nat.toList_repr]
  intro member
  have digit := Nat.isDigit_of_mem_toDigits (by decide) (by decide) member
  contradiction

theorem toString_inj {n m : Nat} (same : toString n = toString m) : n = m := by
  have digits := congrArg String.toList same
  rw [Nat.toString_eq_repr, Nat.toString_eq_repr, Nat.toList_repr, Nat.toList_repr] at digits
  calc n = Nat.ofDigitChars 10 (Nat.toDigits 10 n) 0 := Nat.ofDigitChars_ten_toDigits.symm
    _ = Nat.ofDigitChars 10 (Nat.toDigits 10 m) 0 := by rw [digits]
    _ = m := Nat.ofDigitChars_ten_toDigits

/-- Drawn for the same purpose, though a binding may have another name. -/
inductive Draw.Alike : Draw → Draw → Prop where
  | temp : Alike .temp .temp
  | shadow (base other : String) : Alike (.shadow base) (.shadow other)
  | asked (stem : String) : Alike (.asked stem) (.asked stem)

theorem Draw.Alike.refl (draw : Draw) : draw.Alike draw := by
  cases draw with
  | temp => exact .temp
  | shadow base => exact .shadow base base
  | asked stem => exact .asked stem

namespace NameSupply

/-- The stem of a numbered name ends before the last underscore. -/
theorem dropWhile_numbered (stem : String) (number : Nat) :
    (numbered stem number).base.toList.reverse.dropWhile (· ≠ '_') =
      '_' :: stem.toList.reverse := by
  have text : (numbered stem number).base.toList.reverse =
      (toString number).toList.reverse ++ '_' :: stem.toList.reverse := by
    simp [numbered, Symbol.plain, Symbol.base, Name.plain]
  -- The stem may hold underscores and digits of its own, the number holds no underscore.
  have digits : ∀ char ∈ (toString number).toList.reverse, decide (char ≠ '_') = true := by
    intro char member
    refine decide_eq_true fun underscore => underscore_not_mem_digits number ?_
    exact underscore ▸ List.mem_reverse.mp member
  rw [text, List.dropWhile_append_of_pos digits, List.dropWhile_cons_of_neg (by decide)]

/-- The last underscore divides a numbered name in one way only. -/
theorem numbered_inj {first second : String} {n m : Nat}
    (same : (numbered first n).name = (numbered second m).name) : first = second ∧ n = m := by
  have bases : (numbered first n).base = (numbered second m).base := congrArg Name.base same
  have stems := dropWhile_numbered first n
  rw [bases, dropWhile_numbered second m] at stems
  obtain rfl : first = second :=
    (String.toList_inj.mp (List.reverse_inj.mp (List.cons.inj stems).2)).symm
  exact ⟨rfl, toString_inj ((String.append_right_inj (first ++ "_")).mp bases)⟩

/-- The name for an intermediate value that is drawn behind this many others. -/
def temp (supply : NameSupply) (index : Nat) (span : Option Span) : Symbol :=
  { numbered tempStem (supply.count + index + 1) with span }

theorem temp_issue (supply : NameSupply) (draw : Draw) (index : Nat) (span : Option Span) :
    (supply.issue draw).2.temp index span = supply.temp (index + 1) span := by
  have numbers : supply.count + 1 + index + 1 = supply.count + (index + 1) + 1 := by omega
  simp only [temp, issue, numbers]

theorem gives_drawTemp {span : Option Span} {symbol : Symbol} {n m : NameSupply} :
    Gives (drawTemp span) n symbol m ↔ n.temp 0 span = symbol ∧ (n.issue .temp).2 = m := by
  simp only [drawTemp, gives_bind, gives_draw, gives_pure]
  constructor
  · rintro ⟨_, _, ⟨rfl, rfl⟩, rfl, rfl⟩
    exact ⟨rfl, rfl⟩
  · rintro ⟨rfl, rfl⟩
    exact ⟨_, _, ⟨rfl, rfl⟩, rfl, rfl⟩

/-- The supply when all of this has been drawn from it. -/
def after : NameSupply → List Draw → NameSupply
  | supply, [] => supply
  | supply, draw :: rest => (supply.issue draw).2.after rest

/-- The names that are handed out, each with what it was drawn for. -/
def handOut : NameSupply → List Draw → List (Draw × Symbol)
  | _, [] => []
  | supply, draw :: rest => (draw, (supply.issue draw).1) :: (supply.issue draw).2.handOut rest

variable {supply : NameSupply} {draws first second : List Draw} {draw : Draw} {symbol : Symbol}

/-- The supply when this many names for intermediate values have been drawn from it. -/
def afterTemps (supply : NameSupply) (count : Nat) : NameSupply :=
  supply.after (List.replicate count .temp)

@[simp] theorem after_nil : supply.after [] = supply := rfl

@[simp] theorem count_issue : (supply.issue draw).2.count = supply.count + 1 := rfl

theorem after_append : supply.after (first ++ second) = (supply.after first).after second := by
  induction first generalizing supply with
  | nil => rfl
  | cons draw rest ih => exact ih

theorem count_after : (supply.after draws).count = supply.count + draws.length := by
  induction draws generalizing supply with
  | nil => rfl
  | cons draw rest ih =>
    rw [after, ih, count_issue, List.length_cons]
    omega

theorem afterTemps_succ (count : Nat) :
    supply.afterTemps (count + 1) = (supply.issue .temp).2.afterTemps count := rfl

theorem afterTemps_add (count more : Nat) :
    supply.afterTemps (count + more) = (supply.afterTemps count).afterTemps more := by
  rw [afterTemps, ← List.replicate_append_replicate, after_append]
  rfl

theorem count_afterTemps (count : Nat) :
    (supply.afterTemps count).count = supply.count + count := by
  rw [afterTemps, count_after, List.length_replicate]

theorem temp_after {span : Option Span} :
    (supply.after draws).temp 0 span = supply.temp draws.length span := by
  rw [temp, count_after]
  rfl

theorem temp_afterTemps (count : Nat) (span : Option Span) :
    (supply.afterTemps count).temp 0 span = supply.temp count span := by
  rw [afterTemps, temp_after, List.length_replicate]

/-- The record of a supply grows by what it hands out. -/
theorem drawn_after :
    (supply.after draws).drawn = (supply.handOut draws).reverse ++ supply.drawn := by
  induction draws generalizing supply with
  | nil => rfl
  | cons draw rest ih =>
    rw [after, ih, handOut, List.reverse_cons, List.append_assoc]
    rfl

theorem handOut_append :
    supply.handOut (first ++ second) =
      supply.handOut first ++ (supply.after first).handOut second := by
  induction first generalizing supply with
  | nil => rfl
  | cons draw rest ih => simp only [List.cons_append, handOut, after, ih]

theorem length_handOut : (supply.handOut draws).length = draws.length := by
  induction draws generalizing supply with
  | nil => rfl
  | cons draw rest ih => rw [handOut, List.length_cons, ih, List.length_cons]

/-- The names are numbered in the order of the draws. -/
theorem mem_handOut :
    (draw, symbol) ∈ supply.handOut draws ↔
      ∃ i, draws[i]? = some draw ∧ symbol = numbered draw.stem (supply.count + i + 1) := by
  induction draws generalizing supply with
  | nil => simp [handOut]
  | cons other rest ih =>
    simp only [handOut, List.mem_cons, Prod.mk.injEq, ih]
    constructor
    · rintro (⟨rfl, rfl⟩ | ⟨i, found, rfl⟩)
      · exact ⟨0, rfl, rfl⟩
      · refine ⟨i + 1, found, ?_⟩
        rw [count_issue]
        congr 1
        omega
    · rintro ⟨_ | i, found, rfl⟩
      · obtain rfl := Option.some.inj found
        exact .inl ⟨rfl, rfl⟩
      · refine .inr ⟨i, found, ?_⟩
        rw [count_issue]
        congr 1
        omega

/-- No name is handed out twice. -/
theorem nodup_handOut : ((supply.handOut draws).map fun drawn => drawn.2.name).Nodup := by
  induction draws generalizing supply with
  | nil => exact List.nodup_nil
  | cons draw rest ih =>
    rw [handOut, List.map_cons, List.nodup_cons]
    refine ⟨?_, ih⟩
    rw [List.mem_map]
    rintro ⟨⟨other, symbol⟩, later, same⟩
    obtain ⟨i, _, rfl⟩ := mem_handOut.mp later
    have numbers := (numbered_inj same).2
    rw [count_issue] at numbers
    omega

end NameSupply

/-- Draws names for intermediate values only, whether it succeeds or fails. -/
def DrawsTemps (draw : NameM α) : Prop :=
  ∀ supply, ∃ count, (draw supply).2 = supply.afterTemps count

theorem DrawsTemps.bind {draw : NameM α} {f : α → NameM β} (first : DrawsTemps draw)
    (rest : ∀ a, DrawsTemps (f a)) : DrawsTemps (draw >>= f) := by
  intro supply
  obtain ⟨count, moved⟩ := first supply
  rcases run : draw supply with ⟨result, names⟩
  rw [run] at moved
  obtain rfl : names = supply.afterTemps count := moved
  cases result with
  | ok a =>
    obtain ⟨more, movedOn⟩ := rest a (supply.afterTemps count)
    refine ⟨count + more, ?_⟩
    rw [bind_of_ok run, movedOn, NameSupply.afterTemps_add]
  | error error => exact ⟨count, congrArg Prod.snd (bind_of_error run)⟩

theorem temps_lowering : LoweringLaw DrawsTemps where
  pure := fun _ => ⟨0, rfl⟩
  throw _ := fun _ => ⟨0, rfl⟩
  bind := .bind
  drawTemp := fun _ => ⟨1, rfl⟩

end LispFront
