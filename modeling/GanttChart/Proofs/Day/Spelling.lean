import GanttChart.Proofs.Day.Months
import GanttChart.Proofs.Day.Text

/-! # Spellings of a date

A text is read as a date exactly when it spells that date: a year, a month and a day of the month
between slashes, with zeros and blanks in the places where they are let through. Of all spellings of
a date one is the text that it is written as, so that reading a text and writing what was read
brings the text into a normal form. -/

namespace GanttChart.Day

variable {most n month : Nat} {year : Int} {cs ds rest : List Char} {c : Civil} {d : Day}
  {s : String}

/-! ## Numbers -/

structure IsNumeral (ds : List Char) : Prop where
  ne_nil : ds ≠ []
  isDigit : ∀ c ∈ ds, c.isDigit = true

def IsBlanks (cs : List Char) : Prop := ∀ c ∈ cs, Text.isBlank c = true

theorem IsNumeral.exists_cons (h : IsNumeral ds) :
    ∃ c cs, ds = c :: cs ∧ c.isDigit = true := by
  obtain ⟨c, cs, rfl⟩ := List.exists_cons_of_ne_nil h.ne_nil
  exact ⟨c, cs, rfl, h.isDigit c List.mem_cons_self⟩

/-- The digits that are read are those in front. -/
theorem exists_numeral_of_readDigits? (h : readDigits? most cs = some (n, rest)) :
    ∃ ds, IsNumeral ds ∧ ds.length ≤ most ∧ Number.digitsValue ds = n ∧ cs = ds ++ rest := by
  simp only [readDigits?, Option.ite_none_left_eq_some, Option.some.injEq, Prod.mk.injEq,
    List.isEmpty_iff] at h
  obtain ⟨hne, hvalue, hrest⟩ := h
  refine ⟨_, ⟨hne, fun c hc => ?_⟩, List.length_take_le _ _, hvalue, ?_⟩
  · exact List.mem_takeWhile_imp (List.mem_of_mem_take hc)
  · have hprefix := (List.take_prefix most (cs.takeWhile Char.isDigit)).trans
      (List.takeWhile_prefix Char.isDigit)
    rw [← hrest, List.prefix_iff_eq_append.mp hprefix]

/-! ## Years -/

/-- A year with a sign has any number of digits, one without a sign has four at most. -/
inductive SpellsYear : List Char → Int → Prop
  | plain {ds : List Char} (h : IsNumeral ds) (hlength : ds.length ≤ 4) :
      SpellsYear ds (Number.digitsValue ds)
  | plus {ds : List Char} (h : IsNumeral ds) : SpellsYear ('+' :: ds) (Number.digitsValue ds)
  | minus {ds : List Char} (h : IsNumeral ds) :
      SpellsYear ('-' :: ds) (-(Number.digitsValue ds : Int))

theorem SpellsYear.exists_cons (h : SpellsYear cs year) :
    ∃ c cs', cs = c :: cs' ∧ Text.isBlank c = false := by
  cases h with
  | plain h _ =>
    obtain ⟨c, cs', hcs, hc⟩ := h.exists_cons
    exact ⟨c, cs', hcs, Text.isBlank_of_isDigit hc⟩
  | plus _ => exact ⟨_, _, rfl, by decide⟩
  | minus _ => exact ⟨_, _, rfl, by decide⟩

theorem readYear?_of_spellsYear {ys : List Char} (h : SpellsYear ys year)
    (hrest : NoDigitAhead rest) (hstart : Text.trimStart cs = ys ++ rest) :
    readYear? cs = some (year, rest) := by
  have hread (ds : List Char) (hds : IsNumeral ds) (most : Nat) (hmost : ds.length ≤ most) :
      readDigits? most (ds ++ rest) = some (Number.digitsValue ds, rest) :=
    readDigits?_append hds.isDigit hds.ne_nil hmost hrest
  cases h with
  | plain hds hlength =>
    obtain ⟨c, ds, rfl, hc⟩ := hds.exists_cons
    rw [readYear?_of_isDigit hstart ⟨c, rfl, hc⟩, hread _ hds 4 hlength, Option.map_some]
  | plus hds =>
    rw [readYear?, hstart]
    simp [hread _ hds]
  | minus hds =>
    rw [readYear?, hstart]
    simp [hread _ hds]

theorem readYear?_eq_some_iff (hrest : NoDigitAhead rest) :
    readYear? cs = some (year, rest) ↔
      ∃ ys, SpellsYear ys year ∧ Text.trimStart cs = ys ++ rest := by
  refine ⟨fun h => ?_, fun ⟨ys, hys, hstart⟩ => readYear?_of_spellsYear hys hrest hstart⟩
  rw [readYear?] at h
  split at h
  · rename_i more hstart
    obtain ⟨⟨n, _⟩, hread, heq⟩ := Option.map_eq_some_iff.mp h
    obtain ⟨ds, hds, _, rfl, rfl⟩ := exists_numeral_of_readDigits? hread
    cases heq
    exact ⟨_, .minus hds, hstart⟩
  · rename_i more hstart
    obtain ⟨⟨n, _⟩, hread, heq⟩ := Option.map_eq_some_iff.mp h
    obtain ⟨ds, hds, _, rfl, rfl⟩ := exists_numeral_of_readDigits? hread
    cases heq
    exact ⟨_, .plus hds, hstart⟩
  · obtain ⟨⟨n, _⟩, hread, heq⟩ := Option.map_eq_some_iff.mp h
    obtain ⟨ds, hds, hlength, rfl, hcs⟩ := exists_numeral_of_readDigits? hread
    cases heq
    exact ⟨_, .plain hds hlength, hcs⟩

/-! ## Months and days -/

/-- A month or a day has one digit or two, with any blanks in front. -/
inductive SpellsPart : List Char → Nat → Prop
  | mk {blanks ds : List Char} (hblanks : IsBlanks blanks) (h : IsNumeral ds)
      (hlength : ds.length ≤ 2) : SpellsPart (blanks ++ ds) (Number.digitsValue ds)

theorem readPart?_eq_some_iff (hrest : NoDigitAhead rest) :
    readPart? cs = some (n, rest) ↔ ∃ ps, SpellsPart ps n ∧ cs = '/' :: (ps ++ rest) := by
  constructor
  · intro h
    unfold readPart? at h
    split at h
    · rename_i more
      obtain ⟨ds, hds, hlength, rfl, hstart⟩ := exists_numeral_of_readDigits? h
      have hblanks : IsBlanks (more.takeWhile Text.isBlank) := fun _ => List.mem_takeWhile_imp
      refine ⟨_, .mk hblanks hds hlength, ?_⟩
      rw [List.append_assoc, ← hstart]
      exact congrArg _ List.takeWhile_append_dropWhile.symm
    · cases h
  · rintro ⟨ps, hps, rfl⟩
    obtain ⟨hblanks, hds, hlength⟩ := hps
    rename_i blanks ds
    have hstart : Text.trimStart (blanks ++ (ds ++ rest)) = ds ++ rest := by
      refine Text.trimStartBy_append hblanks fun c hc => ?_
      obtain ⟨d, ds, rfl, hd⟩ := hds.exists_cons
      cases hc
      exact Text.isBlank_of_isDigit hd
    rw [readPart?, List.append_assoc, hstart]
    exact readDigits?_append hds.isDigit hds.ne_nil hlength hrest

/-! ## Dates -/

/-- The day that has a date of the calendar, if any, is the one with this date. -/
theorem ofCivil?_eq_some_iff : ofCivil? c = some d ↔ d.civil = c := by
  constructor
  · intro h
    obtain ⟨hvalid, hnumber⟩ := Option.ite_none_right_eq_some.mp h
    rw [civil, ofNumber?_eq_some.mp hnumber, Civil.ofNumber_number hvalid]
  · rintro rfl
    exact ofCivil?_civil d

/-- The days are the dates of the calendar in the years from -262143 to 262142. -/
theorem exists_civil_iff :
    (∃ d : Day, d.civil = c) ↔ c.isValid = true ∧ -262143 ≤ c.year ∧ c.year ≤ 262142 := by
  have hfirst : firstDayNumber = Civil.monthStart (12 * -262143) := by decide
  have hlast : lastDayNumber + 1 = Civil.monthStart (12 * 262143) := by decide
  have hrange (hvalid : c.isValid = true) : (firstDayNumber ≤ c.number ∧ c.number ≤ lastDayNumber) ↔
      -262143 ≤ c.year ∧ c.year ≤ 262142 := by
    have hmonth := Civil.month_bounds hvalid
    have hlow : firstDayNumber ≤ c.number ↔ 12 * -262143 ≤ c.monthIndex :=
      hfirst ▸ Civil.monthStart_le_iff hvalid
    have hhigh : lastDayNumber + 1 ≤ c.number ↔ 12 * 262143 ≤ c.monthIndex :=
      hlast ▸ Civil.monthStart_le_iff hvalid
    rw [Civil.monthIndex] at hlow hhigh
    omega
  constructor
  · rintro ⟨d, rfl⟩
    have hvalid : d.civil.isValid = true := Civil.isValid_ofNumber d.number
    have hnumber : d.civil.number = d.number := Civil.number_ofNumber d.number
    refine ⟨hvalid, (hrange hvalid).mp ?_⟩
    rw [hnumber]
    exact ⟨d.first_le, d.le_last⟩
  · rintro ⟨hvalid, hyear⟩
    obtain ⟨hfirst, hlast⟩ := (hrange hvalid).mpr hyear
    exact ⟨⟨c.number, hfirst, hlast⟩, Civil.ofNumber_number hvalid⟩

/-- The texts that stand for a day. -/
inductive Spells : List Char → Day → Prop
  | mk {front ys ms ds back : List Char} {year : Int} {month day : Nat} {d : Day}
      (hfront : IsBlanks front) (hyear : SpellsYear ys year) (hmonth : SpellsPart ms month)
      (hday : SpellsPart ds day) (hback : IsBlanks back) (hdate : d.civil = ⟨year, month, day⟩) :
      Spells (front ++ (ys ++ '/' :: (ms ++ '/' :: ds)) ++ back) d

theorem readChars?_eq_some_iff : readChars? cs = some d ↔
    ∃ ys ms ds year month day, SpellsYear ys year ∧ SpellsPart ms month ∧ SpellsPart ds day ∧
      d.civil = ⟨year, month, day⟩ ∧ Text.trimStart cs = ys ++ '/' :: (ms ++ '/' :: ds) := by
  constructor
  · intro h
    obtain ⟨⟨year, rest⟩, hyear, h⟩ := Option.bind_eq_some_iff.mp h
    obtain ⟨⟨month, rest'⟩, hmonth, h⟩ := Option.bind_eq_some_iff.mp h
    obtain ⟨⟨day, rest''⟩, hday, h⟩ := Option.bind_eq_some_iff.mp h
    obtain ⟨hend, hdate⟩ := Option.ite_none_right_eq_some.mp h
    obtain rfl := List.isEmpty_iff.mp hend
    -- each part ends at the slash in front of the next one, and the day at the end of the text
    obtain ⟨ds, hds, rfl⟩ := (readPart?_eq_some_iff noDigitAhead_nil).mp hday
    obtain ⟨ms, hms, rfl⟩ := (readPart?_eq_some_iff (noDigitAhead_slash _)).mp hmonth
    obtain ⟨ys, hys, hstart⟩ := (readYear?_eq_some_iff (noDigitAhead_slash _)).mp hyear
    rw [List.append_nil] at hstart
    exact ⟨ys, ms, ds, year, month, day, hys, hms, hds, ofCivil?_eq_some_iff.mp hdate, hstart⟩
  · rintro ⟨ys, ms, ds, year, month, day, hys, hms, hds, hdate, hstart⟩
    have hyear : readYear? cs = some (year, '/' :: (ms ++ '/' :: ds)) :=
      readYear?_of_spellsYear hys (noDigitAhead_slash _) hstart
    have hmonth : readPart? ('/' :: (ms ++ '/' :: ds)) = some (month, '/' :: ds) :=
      (readPart?_eq_some_iff (noDigitAhead_slash _)).mpr ⟨ms, hms, rfl⟩
    have hday : readPart? ('/' :: ds) = some (day, []) :=
      (readPart?_eq_some_iff noDigitAhead_nil).mpr ⟨ds, hds, by rw [List.append_nil]⟩
    rw [readChars?, hyear]
    simp only [Option.bind_eq_bind, Option.bind_some, hmonth, hday]
    exact ofCivil?_eq_some_iff.mpr hdate

theorem SpellsPart.getLast? (h : SpellsPart cs n) :
    ∃ c, cs.getLast? = some c ∧ c.isDigit = true := by
  cases h with
  | @mk blanks ds _ hds _ =>
    refine ⟨ds.getLast hds.ne_nil, ?_, hds.isDigit _ (List.getLast_mem _)⟩
    rw [List.getLast?_append_of_ne_nil _ hds.ne_nil, List.getLast?_eq_some_getLast]

/-- The texts that are read as a day are its spellings. -/
theorem read?_eq_some_iff : read? s = some d ↔ Spells s.toList d := by
  rw [read?, readChars?_eq_some_iff, Text.trimStart_trim]
  constructor
  · rintro ⟨ys, ms, ds, year, month, day, hys, hms, hds, hdate, htrim⟩
    obtain ⟨front, back, hfront, hback, hs⟩ := Text.exists_eq_trim s.toList
    rw [hs, htrim]
    exact .mk hfront hys hms hds hback hdate
  · intro h
    generalize s.toList = cs at h
    cases h with
    | @mk front ys ms ds back year month day _ hfront hys hms hds hback hdate =>
      refine ⟨ys, ms, ds, year, month, day, hys, hms, hds, hdate, ?_⟩
      have hfirst : ∃ c ∈ (ys ++ '/' :: (ms ++ '/' :: ds)).head?, Text.isBlank c = false := by
        obtain ⟨c, ys, rfl, hc⟩ := hys.exists_cons
        exact ⟨c, rfl, hc⟩
      have hlast : ∀ c ∈ (ys ++ '/' :: (ms ++ '/' :: ds)).getLast?, Text.isBlank c = false := by
        obtain ⟨c, hc, hdigit⟩ := hds.getLast?
        rw [List.append_cons, ← List.append_assoc, List.append_cons, List.getLast?_append, hc,
          Option.some_or]
        rintro _ ⟨⟩
        exact Text.isBlank_of_isDigit hdigit
      exact Text.trim_append hfront hback hfirst hlast

/-- The days are the dates of the calendar in a range of years. Each one is read again from the text
that it is written as, and a text is read as a day exactly when it spells it. Reading a text and
writing the day that was read gives a text that is read like the first one, and two texts come to
the same one exactly when they are read alike. So of the spellings of a day one is written. -/
theorem text_canonical (c : Civil) (d : Day) (s s' : String) :
    ((∃ d : Day, d.civil = c) ↔ c.isValid = true ∧ -262143 ≤ c.year ∧ c.year ≤ 262142) ∧
      read? d.text = some d ∧
      (read? s = some d ↔ Spells s.toList d) ∧
      ((read? s).map text).bind read? = read? s ∧
      ((read? s).map text = (read? s').map text ↔ read? s = read? s') := by
  have hback (o : Option Day) : (o.map text).bind read? = o := by
    cases o with
    | none => rfl
    | some d => rw [Option.map_some, Option.bind_some, read?_text]
  refine ⟨exists_civil_iff, read?_text d, read?_eq_some_iff, hback (read? s), fun h => ?_,
    congrArg _⟩
  rw [← hback (read? s), h, hback]

end GanttChart.Day
