/-! Cutting a text at a separator, and what a text starts or ends with. -/

namespace GanttChart.Text

/-- What is left of the second text behind the first, when it starts with that. -/
def after? : List Char → List Char → Option (List Char)
  | [], cs => some cs
  | _ :: _, [] => none
  | a :: lead, c :: cs => if a = c then after? lead cs else none

/-- What precedes `tail` in `cs`, when `cs` ends with it. -/
def before? (tail cs : List Char) : Option (List Char) :=
  (after? tail.reverse cs.reverse).map List.reverse

/-- The parts around the first occurrence of `sep`. -/
def cut? (sep : List Char) : List Char → Option (List Char × List Char)
  | [] => (after? sep []).map fun rest => ([], rest)
  | c :: cs =>
    match after? sep (c :: cs) with
    | some rest => some ([], rest)
    | none => (cut? sep cs).map fun (front, back) => (c :: front, back)

/-- The parts around the last occurrence of `sep`. -/
def cutLast? (sep : List Char) : List Char → Option (List Char × List Char)
  | [] => (after? sep []).map fun rest => ([], rest)
  | c :: cs =>
    match cutLast? sep cs with
    | some (front, back) => some (c :: front, back)
    | none => (after? sep (c :: cs)).map fun rest => ([], rest)

/-- The fields between the occurrences of the character `sep`; there is always at least one. -/
def fields (sep : Char) : List Char → List (List Char)
  | [] => [[]]
  | c :: cs =>
    match fields sep cs with
    | [] => [[c]]
    | field :: more => if c = sep then [] :: field :: more else (c :: field) :: more

/-- The fields of `s` between the occurrences of `sep`. -/
def fieldsOf (sep : Char) (s : String) : List String := (fields sep s.toList).map String.ofList

theorem fields_ne_nil (sep : Char) (cs : List Char) : fields sep cs ≠ [] := by
  cases cs with
  | nil => simp [fields]
  | cons c cs =>
    simp only [fields]
    split
    · simp
    · split <;> simp

theorem eq_append_of_after? {lead cs rest : List Char} (h : after? lead cs = some rest) :
    cs = lead ++ rest := by
  fun_induction after? lead cs with
  | case1 cs => simpa using h
  | case2 => cases h
  | case3 a lead cs ih => simp [ih h]
  | case4 => cases h

/-- The two parts with the separator between them are the text again. -/
theorem eq_append_of_cut? {sep cs front back : List Char} (h : cut? sep cs = some (front, back)) :
    cs = front ++ sep ++ back := by
  induction cs generalizing front with
  | nil =>
    simp only [cut?, Option.map_eq_some_iff, Prod.mk.injEq] at h
    obtain ⟨rest, hr, hf, hb⟩ := h
    subst hf hb
    simpa using eq_append_of_after? hr
  | cons c cs ih =>
    simp only [cut?] at h
    split at h
    · rename_i rest hr
      simp only [Option.some.injEq, Prod.mk.injEq] at h
      obtain ⟨rfl, rfl⟩ := h
      simpa using eq_append_of_after? hr
    · simp only [Option.map_eq_some_iff, Prod.mk.injEq, Prod.exists] at h
      obtain ⟨f, b, hr, rfl, rfl⟩ := h
      simp [ih hr]

end GanttChart.Text
