import GanttChart.Day.Text
import GanttChart.Proofs.Day.Civil
import GanttChart.Proofs.Text.Cutting

/-! # Dates as text

Every day is written as a text without blanks from which it is read again, and a text that is read
as a date starts with a sign or a digit and ends with a digit. -/

namespace GanttChart

theorem Text.isBlank_of_isDigit {c : Char} (h : c.isDigit = true) : Text.isBlank c = false := by
  have hdigit : 48 ≤ c.toNat ∧ c.toNat ≤ 57 := Char.isDigit_iff_toNat.mp h
  have hranges : ∀ r ∈ Text.blankRanges, r.2 < 48 ∨ 57 < r.1 := by decide
  rw [Text.isBlank, List.any_eq_false]
  intro r hr
  have := hranges r hr
  simp only [Bool.and_eq_true, decide_eq_true_eq]
  omega

namespace Day

variable {width most n : Nat} {c : Char} {cs ds rest : List Char} {d : Day} {s : String}

/-! ## Numbers with leading zeros -/

theorem isDigit_of_mem_padded (h : c ∈ padded width n) : c.isDigit = true := by
  rcases List.mem_append.mp h with h | h
  · rw [List.eq_of_mem_replicate h]
    rfl
  · exact Nat.isDigit_of_mem_toDigits (by decide) (by decide) h

theorem exists_padded_eq_cons (width n : Nat) :
    ∃ c cs, padded width n = c :: cs ∧ c.isDigit = true := by
  have hne : padded width n ≠ [] := by simp [padded, Nat.toDigits_ne_nil]
  obtain ⟨c, cs, hcs⟩ := List.exists_cons_of_ne_nil hne
  exact ⟨c, cs, hcs, isDigit_of_mem_padded (hcs ▸ List.mem_cons_self)⟩

theorem digitsValue_padded (width n : Nat) : Number.digitsValue (padded width n) = n := by
  have hzeros (k : Nat) (cs : List Char) :
      Number.digitsValue (List.replicate k '0' ++ cs) = Number.digitsValue cs := by
    induction k with
    | zero => rfl
    | succ k ih => exact ih
  rw [padded, hzeros]
  exact Nat.ofDigitChars_toDigits (by decide) (by decide)

theorem length_padded (hwidth : 0 < width) (hn : n < 10 ^ width) :
    (padded width n).length = width := by
  have := (Nat.length_toDigits_le_iff (by decide) hwidth).mpr hn
  simp only [padded, List.length_append, List.length_replicate]
  omega

/-- What follows a number, so that the number ends there. -/
def NoDigitAhead (rest : List Char) : Prop := ∀ c ∈ rest.head?, c.isDigit = false

theorem noDigitAhead_nil : NoDigitAhead [] := by simp [NoDigitAhead]

theorem noDigitAhead_slash (cs : List Char) : NoDigitAhead ('/' :: cs) := by simp [NoDigitAhead]

/-- All digits in front are read, unless there are too many of them. -/
theorem readDigits?_append (hdigit : ∀ c ∈ ds, c.isDigit = true) (hne : ds ≠ [])
    (hlength : ds.length ≤ most) (hrest : NoDigitAhead rest) :
    readDigits? most (ds ++ rest) = some (Number.digitsValue ds, rest) := by
  have hstop : rest.takeWhile Char.isDigit = [] := by
    cases rest with
    | nil => rfl
    | cons c cs => simp [hrest c rfl]
  have htake : ((ds ++ rest).takeWhile Char.isDigit).take most = ds := by
    rw [List.takeWhile_append_of_pos hdigit, hstop, List.append_nil, List.take_of_length_le hlength]
  simp [readDigits?, htake, hne]

theorem readDigits?_padded (hlength : (padded width n).length ≤ most)
    (hrest : NoDigitAhead rest) :
    readDigits? most (padded width n ++ rest) = some (n, rest) := by
  obtain ⟨c, cs, hcs, _⟩ := exists_padded_eq_cons width n
  rw [readDigits?_append (fun _ => isDigit_of_mem_padded) (by simp [hcs]) hlength hrest,
    digitsValue_padded]

theorem trimStart_padded (width n : Nat) (rest : List Char) :
    Text.trimStart (padded width n ++ rest) = padded width n ++ rest := by
  obtain ⟨c, cs, hcs, hc⟩ := exists_padded_eq_cons width n
  rw [hcs]
  exact Text.trimStartBy_cons_of_neg (Text.isBlank_of_isDigit hc)

/-! ## The parts of a date -/

theorem readPart?_padded (hn : n < 100) (hrest : NoDigitAhead rest) :
    readPart? ('/' :: (padded 2 n ++ rest)) = some (n, rest) := by
  rw [readPart?, trimStart_padded]
  exact readDigits?_padded (length_padded (by decide) hn).le hrest

/-- A year without a sign is one that starts with a digit. -/
theorem readYear?_of_isDigit (hstart : Text.trimStart cs = ds)
    (hdigit : ∃ c ∈ ds.head?, c.isDigit = true) :
    readYear? cs = (readDigits? 4 ds).map fun (n, more) => ((n : Int), more) := by
  obtain ⟨c, hc, hdigit⟩ := hdigit
  rw [readYear?, hstart]
  split
  · cases hc
    cases hdigit
  · cases hc
    cases hdigit
  · rfl

theorem readYear?_yearText (year : Int) (hrest : NoDigitAhead rest) :
    readYear? (yearText year ++ rest) = some (year, rest) := by
  unfold yearText
  split
  · rename_i hyear
    have hlength : (padded 4 year.toNat).length ≤ 4 := (length_padded (by decide) (by omega)).le
    have hdigit : ∃ c ∈ (padded 4 year.toNat ++ rest).head?, c.isDigit = true := by
      obtain ⟨c, cs, hcs, hc⟩ := exists_padded_eq_cons 4 year.toNat
      exact ⟨c, by simp [hcs], hc⟩
    rw [readYear?_of_isDigit (trimStart_padded 4 year.toNat rest) hdigit,
      readDigits?_padded hlength hrest]
    simp [hyear.1]
  · have hread : readDigits? (padded 4 year.natAbs ++ rest).length (padded 4 year.natAbs ++ rest) =
        some (year.natAbs, rest) := readDigits?_padded (by simp) hrest
    split
    · have hstart : Text.trimStart ('-' :: padded 4 year.natAbs ++ rest) =
          '-' :: (padded 4 year.natAbs ++ rest) := Text.trimStartBy_cons_of_neg rfl
      rw [readYear?, hstart]
      simp only [hread, Option.map_some, Option.some.injEq, Prod.mk.injEq, and_true]
      omega
    · have hstart : Text.trimStart ('+' :: padded 4 year.natAbs ++ rest) =
          '+' :: (padded 4 year.natAbs ++ rest) := Text.trimStartBy_cons_of_neg rfl
      rw [readYear?, hstart]
      simp only [hread, Option.map_some, Option.some.injEq, Prod.mk.injEq, and_true]
      omega

/-! ## Whole dates -/

theorem not_blank_of_mem_yearText {year : Int} (h : c ∈ yearText year) :
    Text.isBlank c = false := by
  simp only [yearText] at h
  split at h
  · exact Text.isBlank_of_isDigit (isDigit_of_mem_padded h)
  · rcases List.mem_cons.mp h with rfl | h
    · split <;> decide
    · exact Text.isBlank_of_isDigit (isDigit_of_mem_padded h)

theorem toList_text (d : Day) : d.text.toList =
    yearText d.civil.year ++ '/' :: (padded 2 d.civil.month ++ '/' :: padded 2 d.civil.day) := by
  simp [text, textWith]

theorem trim_text (d : Day) : Text.trim d.text.toList = d.text.toList := by
  refine Text.trim_of_forall fun c hc => ?_
  simp only [toList_text, List.mem_append, List.mem_cons] at hc
  rcases hc with hc | hc | hc | hc | hc
  · exact not_blank_of_mem_yearText hc
  · exact hc ▸ by decide
  · exact Text.isBlank_of_isDigit (isDigit_of_mem_padded hc)
  · exact hc ▸ by decide
  · exact Text.isBlank_of_isDigit (isDigit_of_mem_padded hc)

theorem month_and_day_lt (d : Day) : d.civil.month < 100 ∧ d.civil.day < 100 := by
  have hvalid := Civil.isValid_ofNumber d.number
  simp only [Civil.isValid, Bool.and_eq_true, decide_eq_true_eq] at hvalid
  have hlength : Civil.monthLength d.civil.year d.civil.month ≤ 31 := by
    unfold Civil.monthLength
    split
    · split <;> decide
    · split <;> decide
  obtain ⟨⟨⟨_, hmonth⟩, _⟩, hday⟩ := hvalid
  exact ⟨Nat.lt_of_le_of_lt hmonth (by decide),
    Nat.lt_of_le_of_lt (hday.trans hlength) (by decide)⟩

/-- A day is read again from its text. -/
@[simp] theorem read?_text (d : Day) : read? d.text = some d := by
  obtain ⟨hmonth, hday⟩ := d.month_and_day_lt
  have hyear := readYear?_yearText d.civil.year
    (noDigitAhead_slash (padded 2 d.civil.month ++ '/' :: padded 2 d.civil.day))
  have hmonth := readPart?_padded hmonth (noDigitAhead_slash (padded 2 d.civil.day))
  have hday := readPart?_padded hday noDigitAhead_nil
  rw [List.append_nil] at hday
  rw [read?, trim_text, toList_text, readChars?, hyear]
  simp only [Option.bind_eq_bind, Option.bind_some, hmonth, hday]
  exact d.ofCivil?_civil

/-- Before the month, a date has a sign or a digit. -/
theorem head_of_read? (h : read? s = some d) :
    ∃ c cs, Text.trim s.toList = c :: cs ∧ (c = '-' ∨ c = '+' ∨ c.isDigit = true) := by
  obtain ⟨⟨year, rest⟩, hyear, _⟩ := Option.bind_eq_some_iff.mp h
  rw [readYear?, Text.trimStart_trim] at hyear
  split at hyear
  · rename_i more hcs
    exact ⟨_, more, hcs, .inl rfl⟩
  · rename_i more hcs
    exact ⟨_, more, hcs, .inr (.inl rfl)⟩
  · cases hcs : Text.trim s.toList with
    | nil =>
      rw [hcs] at hyear
      cases hyear
    | cons c cs =>
      refine ⟨c, cs, rfl, .inr (.inr ?_)⟩
      by_contra hc
      rw [hcs] at hyear
      simp [readDigits?, hc] at hyear

/-! ## How a date ends -/

theorem suffix_of_readDigits? (h : readDigits? most cs = some (n, rest)) : rest <:+ cs := by
  simp only [readDigits?, Option.ite_none_left_eq_some, Option.some.injEq, Prod.mk.injEq] at h
  exact h.2.2 ▸ List.drop_suffix _ _

theorem suffix_of_readYear? {year : Int} (h : readYear? cs = some (year, rest)) : rest <:+ cs := by
  refine List.IsSuffix.trans ?_ (List.dropWhile_suffix Text.isBlank)
  change rest <:+ Text.trimStart cs
  unfold readYear? at h
  split at h
  · rename_i hcs
    obtain ⟨_, hread, heq⟩ := Option.map_eq_some_iff.mp h
    cases heq
    exact hcs ▸ (suffix_of_readDigits? hread).trans (List.suffix_cons _ _)
  · rename_i hcs
    obtain ⟨_, hread, heq⟩ := Option.map_eq_some_iff.mp h
    cases heq
    exact hcs ▸ (suffix_of_readDigits? hread).trans (List.suffix_cons _ _)
  · obtain ⟨_, hread, heq⟩ := Option.map_eq_some_iff.mp h
    cases heq
    exact suffix_of_readDigits? hread

theorem readPart?_eq_some (h : readPart? cs = some (n, rest)) :
    ∃ ds, ds <:+ cs ∧ readDigits? 2 ds = some (n, rest) := by
  unfold readPart? at h
  split at h
  · exact ⟨_, (List.dropWhile_suffix _).trans (List.suffix_cons _ _), h⟩
  · cases h

/-- Digits that are read up to the end of a text are all of it. -/
theorem isDigit_of_readDigits? (h : readDigits? most cs = some (n, [])) :
    cs ≠ [] ∧ ∀ c ∈ cs, c.isDigit = true := by
  simp only [readDigits?, Option.ite_none_left_eq_some, Option.some.injEq, Prod.mk.injEq,
    List.isEmpty_iff, List.drop_eq_nil_iff] at h
  obtain ⟨hne, _, hlength⟩ := h
  have hprefix := (List.take_prefix most (cs.takeWhile Char.isDigit)).trans
    (List.takeWhile_prefix Char.isDigit)
  have hall := hprefix.eq_of_length_le hlength
  refine ⟨hall ▸ hne, fun c hc => ?_⟩
  rw [← hall] at hc
  exact List.mem_takeWhile_imp (List.mem_of_mem_take hc)

theorem getLast?_of_read? (h : read? s = some d) :
    ∃ c, (Text.trim s.toList).getLast? = some c ∧ c.isDigit = true := by
  obtain ⟨⟨year, rest⟩, hyear, h⟩ := Option.bind_eq_some_iff.mp h
  obtain ⟨⟨month, rest'⟩, hmonth, h⟩ := Option.bind_eq_some_iff.mp h
  obtain ⟨⟨day, rest''⟩, hday, h⟩ := Option.bind_eq_some_iff.mp h
  obtain ⟨hend, _⟩ := Option.ite_none_right_eq_some.mp h
  obtain rfl := List.isEmpty_iff.mp hend
  obtain ⟨ms, hms, hmonth⟩ := readPart?_eq_some hmonth
  obtain ⟨ds, hds, hday⟩ := readPart?_eq_some hday
  obtain ⟨hne, hdigit⟩ := isDigit_of_readDigits? hday
  -- the digits of the day are what the text ends with
  have hsuffix : ds <:+ Text.trim s.toList :=
    ((hds.trans (suffix_of_readDigits? hmonth)).trans hms).trans (suffix_of_readYear? hyear)
  obtain ⟨front, hfront⟩ := hsuffix
  refine ⟨ds.getLast hne, ?_, hdigit _ (List.getLast_mem hne)⟩
  rw [← hfront, List.getLast?_append_of_ne_nil _ hne, List.getLast?_eq_some_getLast hne]

end Day

end GanttChart
