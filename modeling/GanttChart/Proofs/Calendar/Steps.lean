import GanttChart.WorkCalendar
import Mathlib.Data.Int.Interval
import Mathlib.Data.Set.Card

/-! # Steps over open days

A step of two or more business days ends on an open day, and from the day it starts on up to that
day there are as many open days as the step has business days. -/

namespace GanttChart

namespace Day

instance : Finite Day :=
  Finite.of_injective
    (fun d => (⟨d.number, d.first_le, d.le_last⟩ : Set.Icc firstDayNumber lastDayNumber))
    fun _ _ h => Day.ext (congrArg Subtype.val h)

/-- The second day is the first one or lies beyond it in the given direction. -/
def Onward (way : Heading) (a b : Day) : Prop :=
  match way with
  | .forward => a ≤ b
  | .backward => b ≤ a

/-- The open days from one day to another one in the given direction, both included. -/
def openOnward (isOpen : Day → Bool) (way : Heading) (a b : Day) : Set Day :=
  {d | isOpen d = true ∧ Onward way a d ∧ Onward way d b}

variable {isOpen : Day → Bool} {way : Heading} {count : Nat} {a b d e : Day}

theorem onward_refl (way : Heading) (d : Day) : Onward way d d := by
  cases way <;> exact Int.le_refl d.number

theorem Onward.antisymm (h : Onward way a b) (h' : Onward way b a) : a = b := by
  cases way with
  | forward => exact Day.ext (Int.le_antisymm h h')
  | backward => exact Day.ext (Int.le_antisymm h' h)

/-- Beyond a day there is the next one and what lies beyond that. -/
theorem onward_iff_of_step? (h : a.step? way = some b) (d : Day) :
    Onward way a d ↔ d = a ∨ Onward way b d := by
  cases way with
  | forward =>
    simp only [step?, plus?_eq_some] at h
    simp only [Onward, le_def, Day.ext_iff]
    omega
  | backward =>
    simp only [step?, plus?_eq_some] at h
    simp only [Onward, le_def, Day.ext_iff]
    omega

theorem not_onward_of_step? (h : a.step? way = some b) : ¬ Onward way b a := by
  cases way with
  | forward =>
    simp only [step?, plus?_eq_some] at h
    simp only [Onward, le_def]
    omega
  | backward =>
    simp only [step?, plus?_eq_some] at h
    simp only [Onward, le_def]
    omega

theorem openOnward_self (h : isOpen d = true) : openOnward isOpen way d d = {d} := by
  ext x
  simp only [openOnward, Set.mem_ofPred_eq, Set.mem_singleton_iff]
  constructor
  · rintro ⟨_, hfrom, hto⟩
    exact hto.antisymm hfrom
  · rintro rfl
    exact ⟨h, onward_refl way x, onward_refl way x⟩

/-- The days from a day on in the given direction. -/
def beyond (way : Heading) (a : Day) : Set Day := {d | Onward way a d}

/-- Of any days there is one more from a day on than from the next one on, if the day is one of
them. -/
theorem ncard_inter_beyond_of_step? (h : a.step? way = some b) (days : Set Day)
    [Decidable (a ∈ days)] :
    (days ∩ beyond way a).ncard =
      (days ∩ beyond way b).ncard + if a ∈ days then 1 else 0 := by
  have hinsert : beyond way a = insert a (beyond way b) := Set.ext (onward_iff_of_step? h)
  rw [hinsert]
  split
  · rename_i ha
    rw [Set.inter_insert_of_mem ha,
      Set.ncard_insert_of_notMem fun hm => not_onward_of_step? h hm.2]
  · rename_i ha
    rw [Set.inter_insert_of_notMem ha, Nat.add_zero]

theorem openOnward_eq_inter (isOpen : Day → Bool) (way : Heading) (a e : Day) :
    openOnward isOpen way a e = {d | isOpen d = true ∧ Onward way d e} ∩ beyond way a := by
  ext d
  simp only [openOnward, beyond, Set.mem_inter_iff, Set.mem_ofPred_eq]
  constructor
  · rintro ⟨hd, hfrom, hto⟩
    exact ⟨⟨hd, hto⟩, hfrom⟩
  · rintro ⟨⟨hd, hto⟩, hfrom⟩
    exact ⟨hd, hfrom, hto⟩

/-- One day further back there is one open day more, if that day is open. -/
theorem ncard_openOnward_of_step? (h : a.step? way = some b) (hb : Onward way b e) :
    (openOnward isOpen way a e).ncard =
      (openOnward isOpen way b e).ncard + if isOpen a then 1 else 0 := by
  have ha : Onward way a e := (onward_iff_of_step? h e).mpr (.inr hb)
  classical
  simp only [openOnward_eq_inter, ncard_inter_beyond_of_step? h, Set.mem_ofPred_eq, ha, and_true]

/-- Seeking ends on an open day, after as many open days as were sought. -/
theorem seekOpen?_spec (h : seekOpen? isOpen way count d = some e) (hcount : 0 < count) :
    isOpen e = true ∧ Onward way d e ∧ (openOnward isOpen way d e).ncard = count := by
  fun_induction seekOpen? isOpen way count d with
  | case1 count d left hleft =>
    cases h
    have hsplit : left + (if isOpen e then 1 else 0) = count := by grind
    have hopen : isOpen e = true := by grind
    refine ⟨hopen, onward_refl way e, ?_⟩
    rw [openOnward_self hopen, Set.ncard_singleton]
    simpa [hleft, hopen] using hsplit
  | case2 count d left hleft hstep => cases h
  | case3 count d left hleft next hstep hroom ih =>
    have hsplit : left + (if isOpen d then 1 else 0) = count := by grind
    obtain ⟨hopen, honward, hcard⟩ := ih h (Nat.pos_of_ne_zero hleft)
    refine ⟨hopen, (onward_iff_of_step? hstep e).mpr (.inr honward), ?_⟩
    rw [ncard_openOnward_of_step? hstep honward, hcard, hsplit]

end Day

namespace WorkCalendar

variable {c : WorkCalendar} {d e : Day} {count : Int}

/-- The open days from one day to a later one, both included. -/
def openDays (c : WorkCalendar) (first last : Day) : Set Day :=
  {d | c.isOpen d = true ∧ first ≤ d ∧ d ≤ last}

theorem openOnward_forward : Day.openOnward c.isOpen .forward d e = c.openDays d e := rfl

theorem openOnward_backward : Day.openOnward c.isOpen .backward d e = c.openDays e d := by
  ext x
  simp only [Day.openOnward, Day.Onward, openDays, Set.mem_ofPred_eq]
  exact and_congr_right fun _ => and_comm

/-- Two open days are not on one day. -/
theorem lt_of_ncard_openDays {first last : Day} (hle : first ≤ last)
    (h : 2 ≤ (c.openDays first last).ncard) : first < last := by
  refine Int.lt_iff_le_and_ne.mpr ⟨hle, fun heq => ?_⟩
  have hsub : c.openDays first last ⊆ {first} := fun d hd =>
    Day.ext (Int.le_antisymm (heq ▸ hd.2.2) hd.2.1)
  have hone := Set.ncard_le_ncard hsub
  rw [Set.ncard_singleton] at hone
  omega

theorem seekOpen?_of_step? (h : c.step? d count = some e) (hcount : 2 ≤ count.natAbs) :
    Day.seekOpen? c.isOpen (if count < 0 then .backward else .forward) count.natAbs d = some e := by
  unfold step? at h
  split at h
  · cases h
  · rwa [if_neg (by omega)] at h

theorem step?_forward (h : c.step? d count = some e) (hcount : 2 ≤ count) :
    c.isOpen e = true ∧ d < e ∧ ((c.openDays d e).ncard : Int) = count := by
  have hseek := seekOpen?_of_step? h (by omega)
  rw [if_neg (by omega)] at hseek
  obtain ⟨hopen, hle, hcard⟩ := Day.seekOpen?_spec hseek (by omega)
  rw [openOnward_forward] at hcard
  have htwo : 2 ≤ (c.openDays d e).ncard := by omega
  exact ⟨hopen, lt_of_ncard_openDays hle htwo, by omega⟩

theorem step?_backward (h : c.step? d count = some e) (hcount : count ≤ -2) :
    c.isOpen e = true ∧ e < d ∧ ((c.openDays e d).ncard : Int) = -count := by
  have hseek := seekOpen?_of_step? h (by omega)
  rw [if_pos (by omega)] at hseek
  obtain ⟨hopen, hle, hcard⟩ := Day.seekOpen?_spec hseek (by omega)
  rw [openOnward_backward] at hcard
  have htwo : 2 ≤ (c.openDays e d).ncard := by omega
  exact ⟨hopen, lt_of_ncard_openDays hle htwo, by omega⟩

theorem addWholeDays_eq_ok_iff : c.addWholeDays d count = .ok e ↔ c.step? d count = some e := by
  unfold addWholeDays
  cases c.step? d count <;> simp

theorem addBusinessDays_eq_ok_iff {days : Float} : c.addBusinessDays d days = .ok e ↔
    ∃ count, wholeDays? days = some count ∧ c.step? d count = some e := by
  unfold addBusinessDays
  rw [← Option.bind_eq_some_iff]
  cases (wholeDays? days).bind (c.step? d) <;> simp

end WorkCalendar

end GanttChart
