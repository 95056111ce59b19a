import GanttChart.Proofs.Day.Civil
import Mathlib

/-! # Months

The months are counted through from January of the year 0. Each one starts where the one before it
ends, so a month is an interval of days, and its days are told by its first day and that of the
next month. -/

namespace GanttChart

namespace Civil

variable {c : Civil} {k year : Int} {month : Nat}

/-- The months before the month of a date. -/
def monthIndex (c : Civil) : Int := 12 * c.year + c.month - 1

/-- The first date of the month after a number of months. -/
def firstOfMonth (k : Int) : Civil := ⟨k / 12, (k % 12).toNat + 1, 1⟩

/-- The number of that date. -/
def monthStart (k : Int) : Int := (firstOfMonth k).number

theorem month_bounds (h : c.isValid = true) : 1 ≤ c.month ∧ c.month ≤ 12 := by
  simp only [isValid, Bool.and_eq_true, decide_eq_true_eq] at h
  exact ⟨h.1.1.1, h.1.1.2⟩

theorem firstOfMonth_eq (hlow : 1 ≤ month) (hhigh : month ≤ 12)
    (hk : k = 12 * year + month - 1) : firstOfMonth k = ⟨year, month, 1⟩ := by
  simp only [firstOfMonth, mk.injEq, and_true]
  omega

theorem firstOfMonth_monthIndex (h : c.isValid = true) :
    firstOfMonth c.monthIndex = ⟨c.year, c.month, 1⟩ :=
  firstOfMonth_eq (month_bounds h).1 (month_bounds h).2 rfl

theorem number_eq (h : c.isValid = true) : c.number = monthStart c.monthIndex + (c.day - 1) := by
  rw [monthStart, firstOfMonth_monthIndex h]
  simp only [number]
  omega

theorem daysBeforeYear_eq (year : Int) :
    daysBeforeYear year = daysBeforeYear (year - 1) + if isLeap year then 366 else 365 := by
  simp only [daysBeforeYear, isLeap, Bool.and_eq_true, Bool.or_eq_true, beq_iff_eq, bne_iff_ne]
  split <;> omega

theorem monthStart_add_one (k : Int) : monthStart (k + 1) =
    monthStart k + monthLength (firstOfMonth k).year (firstOfMonth k).month := by
  obtain ⟨year, m, hm, rfl⟩ : ∃ year : Int, ∃ m : Nat, m < 12 ∧ k = 12 * year + m :=
    ⟨k / 12, (k % 12).toNat, by omega, by omega⟩
  have hyear := daysBeforeYear_eq year
  have hthis : firstOfMonth (12 * year + m) = ⟨year, m + 1, 1⟩ :=
    firstOfMonth_eq (by omega) (by omega) (by omega)
  have hnext : firstOfMonth (12 * year + m + 1) =
      if m = 11 then ⟨year + 1, 1, 1⟩ else ⟨year, m + 2, 1⟩ := by
    split
    · exact firstOfMonth_eq (by omega) (by omega) (by omega)
    · exact firstOfMonth_eq (by omega) (by omega) (by omega)
  rw [monthStart, monthStart, hthis, hnext]
  by_cases hfebruary : m = 1
  · subst hfebruary
    simp only [number, daysBeforeMonth, monthLength]
    split at hyear <;> simp_all <;> omega
  · interval_cases m <;> simp [number, daysBeforeMonth, monthLength] at hfebruary ⊢ <;> omega

theorem monthLength_pos (year : Int) (month : Nat) : 0 < monthLength year month := by
  unfold monthLength
  split
  · split <;> decide
  · split <;> decide

theorem monthStart_strictMono : StrictMono monthStart := by
  refine strictMono_int_of_lt_succ fun k => ?_
  have hpos := monthLength_pos (firstOfMonth k).year (firstOfMonth k).month
  rw [monthStart_add_one]
  omega

theorem isValid_firstOfMonth (k : Int) : (firstOfMonth k).isValid = true := by
  have hpos := monthLength_pos (firstOfMonth k).year (firstOfMonth k).month
  have hmonth : 1 ≤ (k % 12).toNat + 1 ∧ (k % 12).toNat + 1 ≤ 12 := by omega
  simp only [isValid, Bool.and_eq_true, decide_eq_true_eq]
  exact ⟨⟨hmonth, Nat.le_refl 1⟩, hpos⟩

theorem monthStart_le_iff (h : c.isValid = true) : monthStart k ≤ c.number ↔ k ≤ c.monthIndex := by
  have hnumber := number_eq h
  have hlength := monthStart_add_one c.monthIndex
  rw [firstOfMonth_monthIndex h] at hlength
  simp only [isValid, Bool.and_eq_true, decide_eq_true_eq] at h
  dsimp only at hlength
  constructor
  · intro hle
    have hlt : monthStart k < monthStart (c.monthIndex + 1) := by omega
    have := monthStart_strictMono.lt_iff_lt.mp hlt
    omega
  · intro hle
    have := monthStart_strictMono.monotone hle
    omega

/-- A date is in a month when it comes after its start and before that of the next one. -/
theorem monthIndex_eq_iff (h : c.isValid = true) :
    c.monthIndex = k ↔ monthStart k ≤ c.number ∧ c.number < monthStart (k + 1) := by
  rw [monthStart_le_iff h, ← not_le, monthStart_le_iff h]
  omega

/-- No other date has the number of a date of the calendar. -/
theorem ofNumber_number (h : c.isValid = true) : ofNumber c.number = c := by
  have hvalid := isValid_ofNumber c.number
  have hnumber := number_ofNumber c.number
  generalize ofNumber c.number = other at hvalid hnumber
  have hindex : other.monthIndex = c.monthIndex := by
    rw [monthIndex_eq_iff hvalid, hnumber, ← monthIndex_eq_iff h]
  have hday : (other.day : Int) = c.day := by
    rw [number_eq hvalid, number_eq h, hindex] at hnumber
    omega
  have hmonth := month_bounds h
  have hother := month_bounds hvalid
  simp only [monthIndex] at hindex
  obtain ⟨year, month, day⟩ := c
  obtain ⟨year', month', day'⟩ := other
  simp only [mk.injEq] at *
  omega

end Civil

namespace Day

open Civil

variable {a b d : Day} {k : Int}

/-- The year and the month of a day, ordered by the year first. -/
def yearMonth (d : Day) : ℤ ×ₗ ℕ := toLex (d.year, d.month)

/-- The months before that of a day. -/
def monthIndex (d : Day) : Int := d.civil.monthIndex

theorem month_bounds (d : Day) : 1 ≤ d.month ∧ d.month ≤ 12 :=
  Civil.month_bounds (isValid_ofNumber d.number)

theorem monthIndex_eq (d : Day) : d.monthIndex = 12 * d.year + d.month - 1 := rfl

theorem yearMonth_lt_iff : a.yearMonth < b.yearMonth ↔ a.monthIndex < b.monthIndex := by
  have ha := a.month_bounds
  have hb := b.month_bounds
  rw [yearMonth, yearMonth, Prod.Lex.toLex_lt_toLex, monthIndex_eq, monthIndex_eq]
  dsimp only
  omega

theorem yearMonth_eq_iff : a.yearMonth = b.yearMonth ↔ a.monthIndex = b.monthIndex := by
  have ha := a.month_bounds
  have hb := b.month_bounds
  rw [yearMonth, yearMonth, toLex_inj, Prod.mk.injEq, monthIndex_eq, monthIndex_eq]
  omega

theorem number_eq (d : Day) : d.number = monthStart d.monthIndex + (d.dayOfMonth - 1) := by
  have h := Civil.number_eq (isValid_ofNumber d.number)
  rwa [number_ofNumber] at h

/-- A day is in a month when it comes after its start and before that of the next one. -/
theorem monthIndex_eq_iff :
    d.monthIndex = k ↔ monthStart k ≤ d.number ∧ d.number < monthStart (k + 1) := by
  rw [monthIndex, civil, Civil.monthIndex_eq_iff (isValid_ofNumber d.number), number_ofNumber]

theorem monthStart_le (d : Day) : monthStart d.monthIndex ≤ d.number :=
  (monthIndex_eq_iff.mp rfl).1

theorem lt_monthStart (d : Day) : d.number < monthStart (d.monthIndex + 1) :=
  (monthIndex_eq_iff.mp rfl).2

theorem monthIndex_mono (h : a ≤ b) : a.monthIndex ≤ b.monthIndex := by
  have hlt := monthStart_strictMono.lt_iff_lt.mp
    (a.monthStart_le.trans_lt (Int.lt_of_le_of_lt h b.lt_monthStart))
  omega

theorem dayOfMonth_eq_one_iff : d.dayOfMonth = 1 ↔ d.number = monthStart d.monthIndex := by
  have hnumber := d.number_eq
  omega

/-- From one day to the next the month is the same or, where a month begins, the next one. -/
theorem monthIndex_of_step? (h : a.step? .forward = some b) :
    b.monthIndex = a.monthIndex + if b.dayOfMonth = 1 then 1 else 0 := by
  have hnext : b.number = a.number + 1 := plus?_eq_some.mp h
  have hstart := b.monthStart_le
  have hend := b.lt_monthStart
  split
  · rename_i hfirst
    rw [dayOfMonth_eq_one_iff] at hfirst
    have hbefore := monthStart_strictMono (sub_one_lt b.monthIndex)
    have hindex : a.monthIndex = b.monthIndex - 1 :=
      monthIndex_eq_iff.mpr ⟨by omega, by rw [Int.sub_add_cancel]; omega⟩
    omega
  · rename_i hfirst
    rw [dayOfMonth_eq_one_iff] at hfirst
    have hindex : a.monthIndex = b.monthIndex := monthIndex_eq_iff.mpr ⟨by omega, by omega⟩
    omega

/-- Comparing the numbers of the months is enough to see from one day to the next that a month
begins. -/
theorem month_ne_iff_of_step? (h : a.step? .forward = some b) :
    b.month ≠ a.month ↔ b.dayOfMonth = 1 := by
  have hindex := monthIndex_of_step? h
  rw [monthIndex_eq, monthIndex_eq] at hindex
  have ha := a.month_bounds
  have hb := b.month_bounds
  split at hindex
  · rename_i hfirst
    exact iff_of_true (by omega) hfirst
  · rename_i hfirst
    exact iff_of_false (by omega) hfirst

/-- Where the next month starts within the range, the days left in a month are those before it. -/
theorem remainingInMonth_eq (h : monthStart (d.monthIndex + 1) ≤ lastDayNumber) :
    d.remainingInMonth = monthStart (d.monthIndex + 1) - d.number := by
  have hfirst := d.first_le
  have hlater := d.lt_monthStart
  have hnext : (if d.month = 12 then ofDate? (d.year + 1) 1 1 else ofDate? d.year (d.month + 1) 1) =
      ofCivil? (firstOfMonth (d.monthIndex + 1)) := by
    have hmonth := d.month_bounds
    have hindex := d.monthIndex_eq
    split
    · have hjanuary : firstOfMonth (d.monthIndex + 1) = ⟨d.year + 1, 1, 1⟩ :=
        firstOfMonth_eq (by omega) (by omega) (by omega)
      rw [hjanuary, ofDate?]
    · have hnext : firstOfMonth (d.monthIndex + 1) = ⟨d.year, d.month + 1, 1⟩ :=
        firstOfMonth_eq (by omega) (by omega) (by omega)
      rw [hnext, ofDate?]
  have hday : ofCivil? (firstOfMonth (d.monthIndex + 1)) =
      some ⟨monthStart (d.monthIndex + 1), by omega, h⟩ := by
    rw [ofCivil?, if_pos (isValid_firstOfMonth _), ofNumber?_eq_some]
    rfl
  rw [remainingInMonth, hnext, hday]
  rfl

end Day

end GanttChart
