import GanttChart.Proofs.Calendar.Counting
import GanttChart.Proofs.Number.Doubles

/-! # Whole numbers of business days

A whole number of business days, given as a double, is that number to a step. A step of two or more
of them seeks that many open days in its direction. -/

namespace GanttChart

/-- A number of days in a direction. -/
def Heading.signed (way : Heading) (count : Nat) : Int :=
  match way with
  | .forward => count
  | .backward => -count

theorem Heading.natAbs_signed (way : Heading) (n : Nat) : (way.signed n).natAbs = n := by
  cases way with
  | forward => exact Int.natAbs_natCast n
  | backward => exact (Int.natAbs_neg _).trans (Int.natAbs_natCast n)

theorem Heading.of_signed (way : Heading) {n : Nat} (hn : 0 < n) :
    (if way.signed n < 0 then Heading.backward else .forward) = way := by
  cases way with
  | forward => exact if_neg (Int.not_lt.mpr (Int.natCast_nonneg n))
  | backward => exact if_pos (show -(n : Int) < 0 by omega)

namespace WorkCalendar

variable {c : WorkCalendar} {d e r : Day} {count : Int} {way : Heading} {n : Nat}

/-! ## Doubles -/

theorem wholeDays?_ofInt (h : count.natAbs < Number.twoTo 53) :
    wholeDays? (Number.ofInt count) = some count := by
  obtain ⟨b, hb, hsign, hmagnitude⟩ := Number.ofInt_exact h
  have hceil : b.ceil = count.natAbs := by
    rw [Number.Binary.ceil_eq, hmagnitude, Nat.ceil_natCast]
  unfold wholeDays?
  rw [hb, Option.map_some, hsign, hceil]
  congr 1
  by_cases hneg : count < 0
  · rw [if_pos (decide_eq_true hneg)]
    omega
  · rw [if_neg (by simpa using hneg)]
    omega

theorem step?_of_longestStep_lt (h : longestStep < count.natAbs) : c.step? d count = none :=
  if_pos h

/-- Adding a whole number of business days, given as a double, is adding that number. A double
holds every number of days that a step may cover, and what it makes of a larger number is too large
for a step as well. -/
theorem addBusinessDays_ofInt (c : WorkCalendar) (d : Day) (count : Int) :
    c.addBusinessDays d (Number.ofInt count) = c.addWholeDays d count := by
  have hstep : (wholeDays? (Number.ofInt count)).bind (c.step? d) = c.step? d count := by
    by_cases hsmall : count.natAbs < Number.twoTo 53
    · rw [wholeDays?_ofInt hsmall]
      rfl
    · have hwide : longestStep < Number.twoTo 53 := by decide +kernel
      rw [step?_of_longestStep_lt (by omega)]
      unfold wholeDays?
      cases hb : Number.Binary.ofFloat? (Number.ofInt count) with
      | none => rfl
      | some b =>
        have hceil : Number.twoTo 53 ≤ b.ceil := by
          have hle := Number.le_magnitude_ofInt (Nat.not_lt.mp hsmall) hb
          rw [Number.Binary.ceil_eq]
          exact_mod_cast hle.trans (Nat.le_ceil _)
        refine step?_of_longestStep_lt ((hwide.trans_le hceil).trans_eq ?_)
        show b.ceil = (if b.negative then -(b.ceil : Int) else b.ceil).natAbs
        split <;> omega
  unfold addBusinessDays addWholeDays
  rw [hstep]

theorem addBusinessDays_ofInt_eq_ok_iff :
    c.addBusinessDays d (Number.ofInt count) = .ok e ↔ c.step? d count = some e := by
  rw [addBusinessDays_ofInt, addWholeDays_eq_ok_iff]

/-! ## Steps in a direction -/

theorem step?_signed (c : WorkCalendar) (d : Day) (way : Heading) (hn : 2 ≤ n)
    (hbound : n ≤ longestStep) :
    c.step? d (way.signed n) = Day.seekOpen? c.isOpen way n d := by
  rw [step?_eq_seekOpen?, way.natAbs_signed, way.of_signed (by omega)]
  · rwa [way.natAbs_signed]
  · rwa [way.natAbs_signed]

theorem step?_signed_of_le_one (c : WorkCalendar) (d : Day) (way : Heading) (hn : n ≤ 1) :
    c.step? d (way.signed n) = some d :=
  step?_of_natAbs_le_one (by rwa [way.natAbs_signed])

theorem le_longestStep_of_step? (h : c.step? d (way.signed n) = some r) : n ≤ longestStep := by
  by_cases hbound : n ≤ longestStep
  · exact hbound
  · rw [step?_of_longestStep_lt (by rw [way.natAbs_signed]; omega)] at h
    cases h

end WorkCalendar

end GanttChart
