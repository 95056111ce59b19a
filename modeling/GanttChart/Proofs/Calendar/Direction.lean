import GanttChart.Proofs.Calendar.WholeDays
import GanttChart.Proofs.Number.Arithmetic

/-! # The direction of a step

Adding business days never leads back unless they are fewer than minus one: minus one, nothing and
one stay on the day, and a fraction is rounded away from zero first. -/

namespace GanttChart

namespace WorkCalendar

open Number

variable {c : WorkCalendar} {d e : Day} {x : Float} {n : Int}

/-- A step leads back exactly when it has two or more business days backwards. -/
theorem le_iff_of_step? (h : c.step? d n = some e) : d ≤ e ↔ -1 ≤ n := by
  by_cases hback : n ≤ -2
  · obtain ⟨-, hlt, -⟩ := step?_backward h hback
    exact iff_of_false (Int.not_le.mpr hlt) (by omega)
  · refine iff_of_true ?_ (by omega)
    by_cases hforward : 2 ≤ n
    · obtain ⟨-, hlt, -⟩ := step?_forward h hforward
      exact Int.le_of_lt hlt
    · rw [step?_of_natAbs_le_one (by omega)] at h
      cases h
      exact Int.le_refl d.number

/-- Rounding away from zero does not pass minus one. -/
theorem exists_value_of_wholeDays? (h : wholeDays? x = some n) :
    ∃ v, value? x = some v ∧ (-1 ≤ n ↔ -1 ≤ v) := by
  obtain ⟨b, hb, rfl⟩ := Option.map_eq_some_iff.mp h
  refine ⟨_, value?_of_ofFloat? hb, ?_⟩
  have hnonneg := b.magnitude_nonneg
  split
  · have hceil : -1 ≤ -(b.ceil : Int) ↔ b.ceil ≤ 1 := by omega
    rw [hceil, b.ceil_le_one_iff, neg_le_neg_iff]
  · exact iff_of_true (Int.le_trans (by decide) (Int.natCast_nonneg b.ceil)) (by linarith)

theorem exists_value_of_addBusinessDays (h : c.addBusinessDays d x = .ok e) :
    ∃ v, value? x = some v ∧ (d ≤ e ↔ -1 ≤ v) := by
  obtain ⟨n, hn, hstep⟩ := addBusinessDays_eq_ok_iff.mp h
  obtain ⟨v, hv, hround⟩ := exists_value_of_wholeDays? hn
  exact ⟨v, hv, (le_iff_of_step? hstep).trans hround⟩

theorem le_iff_of_addBusinessDays (h : c.addBusinessDays d x = .ok e) : d ≤ e ↔ -1 ≤ x := by
  obtain ⟨v, hv, hforward⟩ := exists_value_of_addBusinessDays h
  rw [hforward, le_iff value?_neg_one hv]

end WorkCalendar

end GanttChart
