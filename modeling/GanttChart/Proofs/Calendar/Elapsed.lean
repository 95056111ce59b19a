import GanttChart.Proofs.Calendar.WholeDays
import Mathlib.Order.Interval.Finset.SuccPred

/-! # Counting open days

The open days from a day on and before another one are counted by taking the closed days away from
all days between. A step counts the same days one by one, and the day it ends on besides. -/

namespace GanttChart

namespace Day

variable {first bound : Day}

/-- The days from a day on and before another one. -/
def before (first bound : Day) : Set Day := {d | first ≤ d ∧ d < bound}

theorem image_number_before (first bound : Day) :
    Day.number '' before first bound = Set.Ico first.number bound.number := by
  ext i
  simp only [before, le_def, lt_def, Set.mem_image, Set.mem_ofPred_eq, Set.mem_Ico]
  constructor
  · rintro ⟨d, hd, rfl⟩
    exact hd
  · intro hi
    have hfirst := first.first_le
    have hlast := bound.le_last
    exact ⟨⟨i, by omega, by omega⟩, hi, rfl⟩

theorem ncard_before (hle : first ≤ bound) :
    ((before first bound).ncard : Int) = first.distance bound := by
  have hinjective : Function.Injective Day.number := fun _ _ h => Day.ext h
  rw [← Set.ncard_image_of_injective _ hinjective, image_number_before, ← Finset.coe_Ico,
    Set.ncard_coe_finset, Int.card_Ico]
  have hdistance : first.number ≤ bound.number := hle
  unfold distance
  omega

end Day

namespace WorkCalendar

variable {c : WorkCalendar} {a b d r e : Day} {n : Int}

/-- The open days from a day on and before another one. -/
def openDaysBefore (c : WorkCalendar) (first bound : Day) : Set Day :=
  {d | c.isOpen d = true ∧ first ≤ d ∧ d < bound}

theorem nodup_closedDays (c : WorkCalendar) : c.closedDays.Nodup := by
  refine Std.TreeSet.distinct_toList.imp ?_
  rintro a b hab rfl
  exact hab Std.ReflCmp.compare_self

theorem mem_closedDays : d ∈ c.closedDays ↔ c.isClosed d = true := by
  rw [closedDays, Std.TreeSet.mem_toList, Std.TreeSet.mem_iff_contains]
  rfl

theorem ncard_closed_before (c : WorkCalendar) (first bound : Day) :
    (Day.before first bound ∩ {d | c.isClosed d = true}).ncard =
      c.closedDays.countP fun d => first ≤ d ∧ d < bound := by
  rw [List.countP_eq_length_filter,
    ← List.toFinset_card_of_nodup (c.nodup_closedDays.filter _), ← Set.ncard_coe_finset]
  congr 1
  ext d
  simp [Day.before, mem_closedDays, and_comm]

theorem before_diff_closed (c : WorkCalendar) (first bound : Day) :
    Day.before first bound \ {d | c.isClosed d = true} = c.openDaysBefore first bound := by
  ext d
  simp [Day.before, openDaysBefore, isOpen, and_comm]

theorem openDaysBefore_of_le (h : b ≤ a) : c.openDaysBefore a b = ∅ := by
  ext d
  simp only [openDaysBefore, Day.le_def, Day.lt_def, Set.mem_ofPred_eq, Set.mem_empty_iff_false,
    iff_false] at h ⊢
  omega

/-- Taking the closed days away leaves the number of open days. -/
theorem countOpen_eq_ncard (c : WorkCalendar) (a b : Day) :
    c.countOpen a b = ((c.openDaysBefore a b).ncard : Int) := by
  unfold countOpen
  by_cases hle : b ≤ a
  · rw [if_pos hle, openDaysBefore_of_le hle, Set.ncard_empty]
    rfl
  · have hdays := Day.ncard_before (Int.le_of_lt (Int.not_le.mp hle))
    have hsplit := Set.ncard_inter_add_ncard_sdiff_eq_ncard (Day.before a b)
      {d | c.isClosed d = true}
    rw [ncard_closed_before, before_diff_closed] at hsplit
    rw [if_neg hle]
    omega

theorem countOpen_of_le (h : b ≤ a) : c.countOpen a b = 0 := if_pos h

theorem countOpen_add (hab : a ≤ b) (hbe : b ≤ e) :
    c.countOpen a b + c.countOpen b e = c.countOpen a e := by
  have hunion : c.openDaysBefore a e = c.openDaysBefore a b ∪ c.openDaysBefore b e := by
    ext d
    simp only [openDaysBefore, Day.le_def, Day.lt_def, Set.mem_union, Set.mem_ofPred_eq]
      at hab hbe ⊢
    constructor
    · intro hd
      by_cases hdb : d.number < b.number
      · exact .inl ⟨hd.1, hd.2.1, hdb⟩
      · exact .inr ⟨hd.1, Int.not_lt.mp hdb, hd.2.2⟩
    · rintro (hd | hd)
      · exact ⟨hd.1, hd.2.1, hd.2.2.trans_le hbe⟩
      · exact ⟨hd.1, hab.trans hd.2.1, hd.2.2⟩
  have hdisjoint : Disjoint (c.openDaysBefore a b) (c.openDaysBefore b e) :=
    Set.disjoint_left.mpr fun d hd hd' => Int.not_le.mpr hd.2.2 hd'.2.1
  rw [countOpen_eq_ncard, countOpen_eq_ncard, countOpen_eq_ncard, hunion,
    Set.ncard_union_eq hdisjoint, Nat.cast_add]

/-- The open days before an open day are those up to it without itself. -/
theorem countOpen_of_isOpen (hr : c.isOpen r = true) (hle : d ≤ r) :
    c.countOpen d r = ((c.openDays d r).ncard : Int) - 1 := by
  have hmem : r ∈ c.openDays d r := ⟨hr, hle, Int.le_refl r.number⟩
  have hdiff : c.openDaysBefore d r = c.openDays d r \ {r} := by
    ext x
    simp only [openDaysBefore, openDays, Day.le_def, Day.lt_def, Day.ext_iff, Set.mem_sdiff,
      Set.mem_ofPred_eq, Set.mem_singleton_iff]
    constructor
    · intro hx
      exact ⟨⟨hx.1, hx.2.1, hx.2.2.le⟩, hx.2.2.ne⟩
    · intro hx
      exact ⟨hx.1.1, hx.1.2.1, hx.1.2.2.lt_of_ne hx.2⟩
  have hone := Set.ncard_sdiff_singleton_add_one hmem
  rw [countOpen_eq_ncard, hdiff]
  omega

/-- Counting open days by taking the closed ones away gives the number of open days from a day on
and before another one, none if that one is not later; it adds up over a day between, and it agrees
with stepping: where two or more business days lead is an open day, and before it there is one open
day less. -/
theorem countOpen_agrees (c : WorkCalendar) :
    (∀ a b, c.countOpen a b = ((c.openDaysBefore a b).ncard : Int)) ∧
    (∀ a b, b ≤ a → c.countOpen a b = 0) ∧
    (∀ a b e, a ≤ b → b ≤ e → c.countOpen a b + c.countOpen b e = c.countOpen a e) ∧
    ∀ d r, ∀ n : Int, 2 ≤ n → c.addBusinessDays d (Number.ofInt n) = .ok r →
      c.countOpen d r = n - 1 ∧ c.isOpen r = true := by
  refine ⟨countOpen_eq_ncard c, fun a b => countOpen_of_le, fun a b e => countOpen_add, ?_⟩
  intro d r n hn h
  obtain ⟨hr, hlt, hcard⟩ := step?_forward (addBusinessDays_ofInt_eq_ok_iff.mp h) hn
  rw [countOpen_of_isOpen hr (Int.le_of_lt hlt), hcard]
  exact ⟨rfl, hr⟩

/-- The Monday after the closed weekend. -/
def monday : Day := ⟨18358, by decide, by decide⟩

/-- From the closed Saturday to the Wednesday there are two open days, none of them before the
Monday. -/
theorem agrees_over_weekend :
    saturday ≤ monday ∧ monday ≤ wednesday ∧ weekendOff.countOpen monday saturday = 0 ∧
    weekendOff.countOpen saturday monday + weekendOff.countOpen monday wednesday =
      weekendOff.countOpen saturday wednesday ∧
    weekendOff.addBusinessDays saturday (Number.ofInt 3) = .ok wednesday ∧
    weekendOff.countOpen saturday wednesday = 3 - 1 := by
  have hfirst : saturday ≤ monday := by decide
  have hlast : monday ≤ wednesday := by decide
  have hstep : weekendOff.addBusinessDays saturday (Number.ofInt 3) = .ok wednesday :=
    addBusinessDays_ofInt_eq_ok_iff.mpr (by decide +kernel)
  obtain ⟨-, hnone, hsum, hsteps⟩ := countOpen_agrees weekendOff
  exact ⟨hfirst, hlast, hnone _ _ hfirst, hsum _ _ _ hfirst hlast, hstep,
    (hsteps _ _ 3 (by decide) hstep).1⟩

end WorkCalendar

end GanttChart
