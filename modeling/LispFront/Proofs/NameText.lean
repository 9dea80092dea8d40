import LispFront.Name

/-! Only the first slash can divide a text, and it does if there is text on both sides of it. So a
text that is read and written again stays as it is, and a name is read back from its text unless a
slash stands where it would divide the text elsewhere (`name_text_round_trip`). -/

namespace LispFront

namespace Name

/-- A qualified name has two parts that are not empty, and its namespace no slash. In a plain name
the first slash, if there is one, is the first or the last character. -/
def Writable (name : Name) : Prop :=
  let chars := name.base.toList
  match name.ns with
  | some ns => ns ≠ "" ∧ '/' ∉ ns.toList ∧ name.base ≠ ""
  | none => '/' ∈ chars → chars.idxOf '/' = 0 ∨ chars.idxOf '/' + 1 = chars.length

instance : DecidablePred Writable := fun name =>
  match name with
  | { ns := some ns, base } => inferInstanceAs (Decidable (ns ≠ "" ∧ '/' ∉ ns.toList ∧ base ≠ ""))
  | { ns := none, base } =>
    inferInstanceAs (Decidable ('/' ∈ base.toList →
      base.toList.idxOf '/' = 0 ∨ base.toList.idxOf '/' + 1 = base.toList.length))

variable {text front rest : String}

/-- A text has no slash, or it is divided at the first one. -/
theorem slash_cases (text : String) :
    '/' ∉ text.toList ∨
      ∃ front rest : String, '/' ∉ front.toList ∧ text = front ++ "/" ++ rest := by
  by_cases slash : '/' ∈ text.toList
  · obtain ⟨before, after, divided, first⟩ := List.eq_append_cons_of_mem slash
    refine .inr ⟨.ofList before, .ofList after, by simpa using first, ?_⟩
    rw [← String.toList_inj, divided]
    simp
  · exact .inl slash

theorem toList_divided :
    (front ++ "/" ++ rest).toList = front.toList ++ '/' :: rest.toList := by
  simp

theorem ne_slash (absent : '/' ∉ text.toList) : ∀ c ∈ text.toList, (c != '/') = true :=
  fun _ member => bne_iff_ne.mpr fun same => absent (same ▸ member)

theorem parse_of_no_slash (absent : '/' ∉ text.toList) : parse text = .plain text := by
  have nothing : text.toList.dropWhile (· != '/') = [] := by
    simpa using @List.dropWhile_append_of_pos _ _ _ [] (ne_slash absent)
  simp only [parse, nothing]

theorem parse_of_first_slash (first : '/' ∉ front.toList) :
    parse (front ++ "/" ++ rest) =
      if front = "" ∨ rest = "" then .plain (front ++ "/" ++ rest) else .qualified front rest := by
  have before : (front ++ "/" ++ rest).toList.takeWhile (· != '/') = front.toList := by
    rw [toList_divided, List.takeWhile_append_of_pos (ne_slash first)]
    simp
  have after : (front ++ "/" ++ rest).toList.dropWhile (· != '/') = '/' :: rest.toList := by
    rw [toList_divided, List.dropWhile_append_of_pos (ne_slash first)]
    simp
  simp only [parse, before, after, String.ofList_toList, Bool.or_eq_true, List.isEmpty_iff,
    String.toList_eq_nil_iff]

theorem text_parse (text : String) : (parse text).text = text := by
  rcases slash_cases text with absent | ⟨front, rest, first, rfl⟩
  · rw [parse_of_no_slash absent]
    rfl
  · rw [parse_of_first_slash first]
    split <;> rfl

theorem parse_text_of_qualified (ns base : String) :
    parse (ns ++ "/" ++ base) = .qualified ns base ↔ ns ≠ "" ∧ '/' ∉ ns.toList ∧ base ≠ "" := by
  constructor
  · intro read
    rcases slash_cases (ns ++ "/" ++ base) with absent | ⟨front, rest, first, same⟩
    · simp at absent
    · rw [same, parse_of_first_slash first] at read
      split at read
      next => simp [plain, qualified] at read
      next full =>
        obtain ⟨rfl, rfl⟩ : front = ns ∧ rest = base := by simpa [qualified] using read
        exact ⟨fun empty => full (.inl empty), first, fun empty => full (.inr empty)⟩
  · rintro ⟨nsFull, first, baseFull⟩
    rw [parse_of_first_slash first, if_neg (not_or.mpr ⟨nsFull, baseFull⟩)]

theorem parse_divided_eq_plain_iff (first : '/' ∉ front.toList) :
    parse (front ++ "/" ++ rest) = .plain (front ++ "/" ++ rest) ↔ front = "" ∨ rest = "" := by
  rw [parse_of_first_slash first]
  split
  next empty => exact iff_of_true rfl empty
  next full => exact iff_of_false (by simp [plain, qualified]) full

/-- The first slash stands behind `front`: at the start if that is empty, and at the end if `rest`
is. -/
theorem writable_divided_iff (first : '/' ∉ front.toList) :
    (plain (front ++ "/" ++ rest)).Writable ↔ front = "" ∨ rest = "" := by
  have place : (front.toList ++ '/' :: rest.toList).idxOf '/' = front.toList.length := by
    rw [List.idxOf_append, if_neg first, List.idxOf_cons_self, Nat.zero_add]
  simp [Writable, plain, place]

theorem parse_text_of_plain (base : String) :
    parse base = .plain base ↔ (plain base).Writable := by
  rcases slash_cases base with absent | ⟨front, rest, first, rfl⟩
  · exact iff_of_true (parse_of_no_slash absent) fun slash => (absent slash).elim
  · rw [parse_divided_eq_plain_iff first, writable_divided_iff first]

end Name

/-- Reading undoes writing on exactly the names that can be written, and writing undoes reading on
all texts. -/
theorem name_text_round_trip :
    (∀ text : String, (Name.parse text).text = text) ∧
    (∀ name : Name, Name.parse name.text = name ↔ name.Writable) := by
  refine ⟨Name.text_parse, fun name => ?_⟩
  obtain ⟨ns, base⟩ := name
  cases ns with
  | none => exact Name.parse_text_of_plain base
  | some ns => exact Name.parse_text_of_qualified ns base

example :
    ["/", "a/", "/a", "a//", "a/b/c", "é/ü"].map Name.parse =
      [.plain "/", .plain "a/", .plain "/a", .qualified "a" "/", .qualified "a" "b/c",
        .qualified "é" "ü"] := by
  decide

example :
    ¬ (Name.qualified "a/b" "c").Writable ∧ ¬ (Name.qualified "a" "").Writable ∧
    ¬ (Name.plain "a/b").Writable ∧ (Name.plain "//").Writable := by
  decide

end LispFront
