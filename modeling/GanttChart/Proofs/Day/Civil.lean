import GanttChart.Day.Civil
import Mathlib.Tactic.IntervalCases

/-! # Dates and day numbers

The date of a day number is a date of the calendar and has that number, so that every day has a
date, from which it is found again. -/

namespace GanttChart

namespace Civil

variable {year : Int} {index k : Nat}

/-- The date in the month with the given index, on day `k` of a year; months and days are counted
from zero, and both start with the first of March. -/
def ofMonth (year : Int) (index k : Nat) : Civil where
  year := if index < 10 then year else year + 1
  month := if index < 10 then index + 3 else index - 9
  day := k - daysBeforeMonth index + 1

theorem number_ofMonth (year : Int) (hindex : index ≤ 11) (hk : daysBeforeMonth index ≤ k) :
    (ofMonth year index k).number = daysBeforeYear year + k - 719468 := by
  simp only [ofMonth, number]
  by_cases h10 : index < 10
  · have hmonth : ¬ index + 3 ≤ 2 := by omega
    simp only [h10, if_true, hmonth, if_false, Nat.add_sub_cancel]
    omega
  · have hmonth : index - 9 ≤ 2 := by omega
    have hback : index - 9 + 9 = index := by omega
    simp only [h10, if_false, hmonth, if_true, hback, Int.add_sub_cancel]
    omega

/-- A day that comes before the next month is in this one. The leap day ends its year. -/
theorem isValid_ofMonth (hindex : index ≤ 11) (hk : k < daysBeforeMonth (index + 1))
    (hle : k ≤ 365) (hleap : k = 365 → isLeap (year + 1)) :
    (ofMonth year index k).isValid = true := by
  by_cases h11 : index = 11
  · subst h11
    cases hyear : isLeap (year + 1) with
    | true =>
      simp [ofMonth, isValid, monthLength, daysBeforeMonth, hyear]
      omega
    | false =>
      have hlast : k ≠ 365 := by simpa [hyear] using hleap
      simp [ofMonth, isValid, monthLength, daysBeforeMonth, hyear]
      omega
  · have hindex' : index ≤ 10 := by omega
    interval_cases index <;> simp [ofMonth, isValid, monthLength, daysBeforeMonth] at hk ⊢ <;> omega

/-- A day of four centuries by the whole centuries, four years and years before it, and by the days
of its own year before it. -/
structure IsSplit (inEra century cycle inFour k : Nat) : Prop where
  century_le : century ≤ 3
  cycle_le : cycle ≤ 24
  inFour_le : inFour ≤ 3
  le : k ≤ 365
  sum : 36524 * century + 1461 * cycle + 365 * inFour + k = inEra
  last : k = 365 → inFour = 3 ∧ (cycle = 24 → century = 3)

theorem exists_split (n : Int) : ∃ (era : Int) (inEra century cycle inFour k : Nat),
    n + 719468 = 146097 * era + inEra ∧ IsSplit inEra century cycle inFour k ∧
      ofNumber n =
        ofMonth (400 * era + 100 * century + 4 * cycle + inFour) ((5 * k + 2) / 153) k := by
  refine ⟨_, ((n + 719468) % 146097).toNat, _, _, _, _, ?_, ?_, rfl⟩
  · omega
  · have hlt : ((n + 719468) % 146097).toNat < 146097 := by omega
    generalize ((n + 719468) % 146097).toNat = inEra at hlt
    constructor <;> omega

namespace IsSplit

variable {inEra century cycle inFour : Nat}

theorem daysBeforeYear_eq (h : IsSplit inEra century cycle inFour k) (era : Int) :
    daysBeforeYear (400 * era + 100 * century + 4 * cycle + inFour) + k =
      146097 * era + inEra := by
  obtain ⟨hcentury, hcycle, hfour, _, hsum, _⟩ := h
  simp only [daysBeforeYear]
  omega

theorem isLeap_succ (h : IsSplit inEra century cycle inFour k) (era : Int) (hk : k = 365) :
    isLeap (400 * era + 100 * century + 4 * cycle + inFour + 1) := by
  obtain ⟨hfour, hlast⟩ := h.last hk
  have hcycle := h.cycle_le
  have hcentury := h.century_le
  simp only [isLeap, Bool.and_eq_true, Bool.or_eq_true, beq_iff_eq, bne_iff_ne]
  refine ⟨by omega, ?_⟩
  by_cases h24 : cycle = 24
  · have := hlast h24
    right
    omega
  · left
    omega

end IsSplit

@[simp] theorem number_ofNumber (n : Int) : (ofNumber n).number = n := by
  obtain ⟨era, inEra, century, cycle, inFour, k, hn, h, hof⟩ := exists_split n
  have hle := h.le
  rw [hof, number_ofMonth _ (by omega) (by simp only [daysBeforeMonth]; omega),
    h.daysBeforeYear_eq era]
  omega

@[simp] theorem isValid_ofNumber (n : Int) : (ofNumber n).isValid = true := by
  obtain ⟨era, inEra, century, cycle, inFour, k, _, h, hof⟩ := exists_split n
  have hle := h.le
  rw [hof]
  refine isValid_ofMonth (by omega) ?_ hle (h.isLeap_succ era)
  simp only [daysBeforeMonth]
  omega

end Civil

namespace Day

/-- A day is found again from its date. -/
@[simp] theorem ofCivil?_civil (d : Day) : ofCivil? d.civil = some d := by
  simp [ofCivil?, civil]

end Day

end GanttChart
