import GanttChart.Proofs.Calendar.Steps

/-! # Where a step ends

A step of two or more business days ends on the one open day up to which the open days, counted
from the day it starts on, are as many as the step has business days; it fails exactly when fewer
are left in its direction. The search behind a step looks at each day of the range at most once. -/

namespace GanttChart

namespace Day

variable {isOpen : Day → Bool} {way : Heading} {count rounds : Nat} {a b d e : Day}

/-! ## The last day of the range -/

/-- Beyond the last day of the range there is only that day itself. -/
theorem onward_iff_of_step?_eq_none (h : a.step? way = none) (d : Day) :
    Onward way a d ↔ d = a := by
  have hfirst := d.first_le
  have hlast := d.le_last
  have hafirst := a.first_le
  have halast := a.le_last
  cases way with
  | forward =>
    simp only [step?, plus?, ofNumber?_eq_none] at h
    simp only [Onward, le_def, Day.ext_iff]
    omega
  | backward =>
    simp only [step?, plus?, ofNumber?_eq_none] at h
    simp only [Onward, le_def, Day.ext_iff]
    omega

/-- The open days from a day on in the given direction, up to the last day of the range. -/
def openBeyond (isOpen : Day → Bool) (way : Heading) (a : Day) : Set Day :=
  {d | isOpen d = true ∧ Onward way a d}

theorem ncard_openBeyond_of_step? (h : a.step? way = some b) :
    (openBeyond isOpen way a).ncard =
      (openBeyond isOpen way b).ncard + if isOpen a then 1 else 0 :=
  ncard_inter_beyond_of_step? h {d | isOpen d = true}

theorem ncard_openBeyond_of_step?_eq_none (h : a.step? way = none) :
    (openBeyond isOpen way a).ncard = if isOpen a then 1 else 0 := by
  split
  · rename_i ha
    have hone : openBeyond isOpen way a = {a} := by
      ext d
      simp only [openBeyond, Set.mem_ofPred_eq, onward_iff_of_step?_eq_none h,
        Set.mem_singleton_iff]
      constructor
      · rintro ⟨_, rfl⟩
        rfl
      · rintro rfl
        exact ⟨ha, rfl⟩
    rw [hone, Set.ncard_singleton]
  · rename_i ha
    have hnone : openBeyond isOpen way a = ∅ := by
      ext d
      simp only [openBeyond, Set.mem_ofPred_eq, onward_iff_of_step?_eq_none h,
        Set.mem_empty_iff_false, iff_false]
      rintro ⟨hd, rfl⟩
      exact ha hd
    rw [hnone, Set.ncard_empty]

/-! ## What the search finds -/

theorem eq_of_ncard_openOnward (h : (openOnward isOpen way d e).ncard = 1) (hd : isOpen d = true)
    (he : isOpen e = true) (hde : Onward way d e) : d = e := by
  obtain ⟨x, hx⟩ := Set.ncard_eq_one.mp h
  have hdx : d ∈ ({x} : Set Day) := hx ▸ ⟨hd, onward_refl way d, hde⟩
  have hex : e ∈ ({x} : Set Day) := hx ▸ ⟨he, hde, onward_refl way e⟩
  exact hdx.trans hex.symm

/-- Seeking finds the open day on which its count is reached. -/
theorem seekOpen?_of_ncard (he : isOpen e = true) (hde : Onward way d e)
    (hcard : (openOnward isOpen way d e).ncard = count) (hcount : 0 < count) :
    seekOpen? isOpen way count d = some e := by
  fun_induction seekOpen? isOpen way count d with
  | case1 count d left hleft =>
    -- the count is one and the day open, so there is no other open day up to `e`
    have hopen : isOpen d = true := by grind
    have hone : count = 1 := by grind
    rw [eq_of_ncard_openOnward (hcard.trans hone) hopen he hde]
  | case2 count d left hleft hstep =>
    obtain rfl := (onward_iff_of_step?_eq_none hstep e).mp hde
    rw [openOnward_self he, Set.ncard_singleton] at hcard
    exact absurd (by grind) hleft
  | case3 count d left hleft next hstep hroom ih =>
    rcases (onward_iff_of_step? hstep e).mp hde with rfl | hnext
    · rw [openOnward_self he, Set.ncard_singleton] at hcard
      exact absurd (by grind) hleft
    · rw [ncard_openOnward_of_step? hstep hnext] at hcard
      exact ih hnext (by grind) (Nat.pos_of_ne_zero hleft)

theorem seekOpen?_eq_some_iff (hcount : 0 < count) :
    seekOpen? isOpen way count d = some e ↔
      isOpen e = true ∧ Onward way d e ∧ (openOnward isOpen way d e).ncard = count := by
  constructor
  · intro h
    exact seekOpen?_spec h hcount
  · rintro ⟨he, hde, hcard⟩
    exact seekOpen?_of_ncard he hde hcard hcount

/-- Seeking finds nothing exactly when there are not enough open days. -/
theorem seekOpen?_eq_none_iff (hcount : 0 < count) :
    seekOpen? isOpen way count d = none ↔ (openBeyond isOpen way d).ncard < count := by
  fun_induction seekOpen? isOpen way count d with
  | case1 count d left hleft =>
    have hopen : isOpen d = true := by grind
    have hone : count = 1 := by grind
    have hpos : 0 < (openBeyond isOpen way d).ncard :=
      (Set.ncard_pos).mpr ⟨d, hopen, onward_refl way d⟩
    simp only [reduceCtorEq, false_iff]
    omega
  | case2 count d left hleft hstep =>
    rw [ncard_openBeyond_of_step?_eq_none hstep]
    simp only [true_iff]
    grind
  | case3 count d left hleft next hstep hroom ih =>
    rw [ih (Nat.pos_of_ne_zero hleft), ncard_openBeyond_of_step? hstep]
    grind

/-! ## How long it takes -/

/-- Seeking that gives up after it has looked at a number of days; none when it gives up. -/
def seekWithin? (isOpen : Day → Bool) (way : Heading) : Nat → Nat → Day → Option (Option Day)
  | 0, _, _ => none
  | rounds + 1, count, d =>
    let left := if isOpen d then count - 1 else count
    if left = 0 then some (some d)
    else
      match d.step? way with
      | none => some none
      | some e => seekWithin? isOpen way rounds left e

/-- Seeking has ended once it has looked at every day up to the end of the range. -/
theorem seekWithin?_eq (hrounds : d.room way < rounds) :
    seekWithin? isOpen way rounds count d = some (seekOpen? isOpen way count d) := by
  obtain ⟨rounds, rfl⟩ := Nat.exists_eq_add_one_of_ne_zero (Nat.ne_zero_of_lt hrounds)
  fun_induction seekOpen? isOpen way count d generalizing rounds with
  | case1 count d left hleft => exact if_pos hleft
  | case2 count d left hleft hstep =>
    rw [seekWithin?, hstep]
    exact if_neg hleft
  | case3 count d left hleft next hstep hroom ih =>
    obtain ⟨rounds, rfl⟩ := Nat.exists_eq_add_one_of_ne_zero (n := rounds) (by omega)
    rw [← ih rounds (by omega), seekWithin?, hstep]
    exact if_neg hleft

end Day

namespace WorkCalendar

variable {c : WorkCalendar} {d e : Day} {count : Int} {days : Float} {err : ScheduleError}

/-! ## Rounding -/

/-- A number of days, rounded away from zero, is a whole number: of its sign, not nearer to zero,
and the nearest to zero of those. -/
def RoundsTo (days : Float) (count : Int) : Prop :=
  ∃ b, Number.Binary.ofFloat? days = some b ∧ (if b.negative then count ≤ 0 else 0 ≤ count) ∧
    b.ratio.1 ≤ count.natAbs * b.ratio.2 ∧
    ∀ n : Nat, b.ratio.1 ≤ n * b.ratio.2 → count.natAbs ≤ n

theorem wholeDays?_eq_some_iff : wholeDays? days = some count ↔ RoundsTo days count := by
  unfold wholeDays? RoundsTo
  rw [Option.map_eq_some_iff]
  refine exists_congr fun b => and_congr_right fun _ => ?_
  constructor
  · rintro rfl
    have habs : (if b.negative then -(b.ceil : Int) else b.ceil).natAbs = b.ceil := by
      split <;> omega
    refine ⟨?_, ?_, fun n hn => ?_⟩
    · split <;> simp
    · rw [habs]
      exact b.ratio_le_ceil
    · rw [habs]
      exact Number.Binary.ceil_le hn
  · rintro ⟨hsign, habove, hleast⟩
    have hceil : b.ceil = count.natAbs :=
      Nat.le_antisymm (Number.Binary.ceil_le habove) (hleast _ b.ratio_le_ceil)
    rw [hceil]
    split at hsign
    · rename_i hneg
      rw [if_pos hneg]
      omega
    · rename_i hpos
      rw [if_neg hpos]
      omega

/-! ## Steps -/

/-- The open days from a day on. -/
def openDaysFrom (c : WorkCalendar) (d : Day) : Set Day := {e | c.isOpen e = true ∧ d ≤ e}

/-- The open days up to a day. -/
def openDaysUpTo (c : WorkCalendar) (d : Day) : Set Day := {e | c.isOpen e = true ∧ e ≤ d}

/-- What a step of a whole number of business days from a day answers. In the direction of the step
there is at most one open day at which the open days, the first and the last one counted, are as
many as the step has business days, and the answer is that day. -/
structure Counts (c : WorkCalendar) (d : Day) (count : Int) (shown : String)
    (answer : Except ScheduleError Day) : Prop where
  stays : count.natAbs ≤ 1 → answer = .ok d
  forward : 2 ≤ count → ∀ e, answer = .ok e ↔
    c.isOpen e = true ∧ d ≤ e ∧ ((c.openDays d e).ncard : Int) = count
  forward_fails : 2 ≤ count → ∀ err, answer = .error err ↔
    err = .unsupportedPeriod shown ∧ ((c.openDaysFrom d).ncard : Int) < count
  backward : count ≤ -2 → ∀ e, answer = .ok e ↔
    c.isOpen e = true ∧ e ≤ d ∧ ((c.openDays e d).ncard : Int) = -count
  backward_fails : count ≤ -2 → ∀ err, answer = .error err ↔
    err = .unsupportedPeriod shown ∧ ((c.openDaysUpTo d).ncard : Int) < -count

theorem step?_of_natAbs_le_one (hcount : count.natAbs ≤ 1) : c.step? d count = some d := by
  have hbound : ¬ longestStep < count.natAbs := by
    unfold longestStep
    omega
  rw [step?, if_neg hbound, if_pos hcount]

theorem step?_eq_seekOpen? (hcount : 2 ≤ count.natAbs) (hbound : count.natAbs ≤ longestStep) :
    c.step? d count =
      Day.seekOpen? c.isOpen (if count < 0 then .backward else .forward) count.natAbs d := by
  rw [step?, if_neg (Nat.not_lt.mpr hbound), if_neg (Nat.not_le.mpr hcount)]

theorem step?_forward_iff (hcount : 2 ≤ count) (hbound : count.natAbs ≤ longestStep) :
    c.step? d count = some e ↔
      c.isOpen e = true ∧ d ≤ e ∧ ((c.openDays d e).ncard : Int) = count := by
  rw [step?_eq_seekOpen? (by omega) hbound, if_neg (by omega),
    Day.seekOpen?_eq_some_iff (by omega), openOnward_forward]
  have hcast : (c.openDays d e).ncard = count.natAbs ↔
      ((c.openDays d e).ncard : Int) = count := by omega
  rw [hcast]
  rfl

theorem step?_forward_eq_none_iff (hcount : 2 ≤ count) (hbound : count.natAbs ≤ longestStep) :
    c.step? d count = none ↔ ((c.openDaysFrom d).ncard : Int) < count := by
  rw [step?_eq_seekOpen? (by omega) hbound, if_neg (by omega),
    Day.seekOpen?_eq_none_iff (by omega)]
  change (c.openDaysFrom d).ncard < count.natAbs ↔ _
  omega

theorem step?_backward_iff (hcount : count ≤ -2) (hbound : count.natAbs ≤ longestStep) :
    c.step? d count = some e ↔
      c.isOpen e = true ∧ e ≤ d ∧ ((c.openDays e d).ncard : Int) = -count := by
  rw [step?_eq_seekOpen? (by omega) hbound, if_pos (by omega),
    Day.seekOpen?_eq_some_iff (by omega), openOnward_backward]
  have hcast : (c.openDays e d).ncard = count.natAbs ↔
      ((c.openDays e d).ncard : Int) = -count := by omega
  rw [hcast]
  rfl

theorem step?_backward_eq_none_iff (hcount : count ≤ -2) (hbound : count.natAbs ≤ longestStep) :
    c.step? d count = none ↔ ((c.openDaysUpTo d).ncard : Int) < -count := by
  rw [step?_eq_seekOpen? (by omega) hbound, if_pos (by omega),
    Day.seekOpen?_eq_none_iff (by omega)]
  change (c.openDaysUpTo d).ncard < count.natAbs ↔ _
  omega

/-- The answer of a step: where it ends, or that its period is not supported. -/
def answer (shown : String) (ending : Option Day) : Except ScheduleError Day :=
  ending.elim (.error (.unsupportedPeriod shown)) .ok

theorem answer_eq_ok_iff {shown : String} {ending : Option Day} :
    answer shown ending = .ok e ↔ ending = some e := by
  cases ending <;> simp [answer]

theorem answer_eq_error_iff {shown : String} {ending : Option Day} :
    answer shown ending = .error err ↔ err = .unsupportedPeriod shown ∧ ending = none := by
  cases ending <;> simp [answer, eq_comm]

theorem addWholeDays_eq_answer (c : WorkCalendar) (d : Day) (count : Int) :
    c.addWholeDays d count = answer (Number.plainText (Number.ofInt count)) (c.step? d count) := by
  unfold addWholeDays
  cases c.step? d count <;> rfl

theorem addBusinessDays_eq_answer (c : WorkCalendar) (d : Day) (h : RoundsTo days count) :
    c.addBusinessDays d days = answer (Number.plainText days) (c.step? d count) := by
  unfold addBusinessDays
  rw [wholeDays?_eq_some_iff.mpr h, Option.bind_some]
  cases c.step? d count <;> rfl

theorem counts_answer (c : WorkCalendar) (d : Day) (shown : String)
    (hbound : count.natAbs ≤ longestStep) :
    c.Counts d count shown (answer shown (c.step? d count)) where
  stays hcount := answer_eq_ok_iff.mpr (step?_of_natAbs_le_one hcount)
  forward hcount e := answer_eq_ok_iff.trans (step?_forward_iff hcount hbound)
  forward_fails hcount err := by
    rw [answer_eq_error_iff, step?_forward_eq_none_iff hcount hbound]
  backward hcount e := answer_eq_ok_iff.trans (step?_backward_iff hcount hbound)
  backward_fails hcount err := by
    rw [answer_eq_error_iff, step?_backward_eq_none_iff hcount hbound]

/-- Adding business days, a number of them that is rounded away from zero or a whole number, ends
on the open day with that many open days from the start to it, whatever days are closed, and fails
exactly when there are fewer open days in the direction of the step. The search for that day comes
to its end after it has looked at no more days than there are from the start to the end of the
range of days. -/
theorem addBusinessDays_counts (c : WorkCalendar) (d : Day) :
    (∀ days count, RoundsTo days count → count.natAbs ≤ longestStep →
      c.Counts d count (Number.plainText days) (c.addBusinessDays d days)) ∧
    (∀ count : Int, count.natAbs ≤ longestStep →
      c.Counts d count (Number.plainText (Number.ofInt count)) (c.addWholeDays d count)) ∧
    ∀ way count, Day.seekWithin? c.isOpen way (d.room way + 1) count d =
      some (Day.seekOpen? c.isOpen way count d) := by
  refine ⟨fun days count hround hbound => ?_, fun count hbound => ?_, fun way count => ?_⟩
  · rw [addBusinessDays_eq_answer c d hround]
    exact counts_answer c d _ hbound
  · rw [addWholeDays_eq_answer]
    exact counts_answer c d _ hbound
  · exact Day.seekWithin?_eq (Nat.lt_succ_self _)

/-- Saturday, 4 April 2020. -/
def saturday : Day := ⟨18356, by decide, by decide⟩

/-- The Wednesday after it. -/
def wednesday : Day := ⟨18360, by decide, by decide⟩

/-- The last day but one of the range of days. -/
def lastButOne : Day := ⟨lastDayNumber - 1, by decide, by decide⟩

/-- Only that Saturday and the Sunday after it are closed. -/
def weekendOff : WorkCalendar :=
  ((ofWindow saturday wednesday saturday .daily).close saturday).close
    ⟨18357, by decide, by decide⟩

/-- Two days and a half from a closed Saturday on are three open days, the last of them a Wednesday;
and three days do not fit into the last two days of the range. -/
theorem counts_over_weekend :
    RoundsTo 2.5 3 ∧ (3 : Int).natAbs ≤ longestStep ∧
    weekendOff.addBusinessDays saturday 2.5 = .ok wednesday ∧
    ((weekendOff.openDays saturday wednesday).ncard : Int) = 3 ∧
    (∃ err, weekendOff.addWholeDays lastButOne 3 = .error err) ∧
    ((weekendOff.openDaysFrom lastButOne).ncard : Int) < 3 := by
  have hround : RoundsTo 2.5 3 := wholeDays?_eq_some_iff.mp (by decide +kernel)
  have hbound : (3 : Int).natAbs ≤ longestStep := by decide
  have hstep : weekendOff.step? saturday 3 = some wednesday := by decide +kernel
  have hnone : weekendOff.step? lastButOne 3 = none := by decide +kernel
  have hok : weekendOff.addBusinessDays saturday 2.5 = .ok wednesday :=
    (addBusinessDays_eq_answer _ _ hround).trans (answer_eq_ok_iff.mpr hstep)
  have herror := (addWholeDays_eq_answer weekendOff lastButOne 3).trans
    (answer_eq_error_iff.mpr ⟨rfl, hnone⟩)
  have hforward := ((addBusinessDays_counts weekendOff saturday).1 2.5 3 hround hbound).forward
  have hfails := ((addBusinessDays_counts weekendOff lastButOne).2.1 3 hbound).forward_fails
  exact ⟨hround, hbound, hok, ((hforward (by decide) wednesday).mp hok).2.2, ⟨_, herror⟩,
    ((hfails (by decide) _).mp herror).2⟩

end WorkCalendar

end GanttChart
