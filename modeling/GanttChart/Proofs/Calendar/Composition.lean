import GanttChart.Proofs.Calendar.WholeDays
import GanttChart.Proofs.Outcome
import Mathlib.Order.Bounds.Basic

/-! # Steps one after the other

Both the day a step starts on and the day it ends on are counted. Two steps one after the other are
therefore one step of their sum less one, and a step back of the same length ends on the first open
day from the day the step out started on. -/

namespace GanttChart

def Heading.reverse : Heading → Heading
  | .forward => .backward
  | .backward => .forward

namespace Day

variable {isOpen : Day → Bool} {way : Heading} {m n : Nat} {a b d e : Day}

theorem onward_total (way : Heading) (a b : Day) : Onward way a b ∨ Onward way b a := by
  cases way with
  | forward => exact Int.le_total a.number b.number
  | backward => exact Int.le_total b.number a.number

theorem onward_reverse : Onward way.reverse a b ↔ Onward way b a := by
  cases way <;> exact Iff.rfl

theorem openOnward_reverse (isOpen : Day → Bool) (way : Heading) (a b : Day) :
    openOnward isOpen way.reverse a b = openOnward isOpen way b a := by
  ext d
  simp only [openOnward, onward_reverse, Set.mem_ofPred_eq]
  exact and_congr_right fun _ => and_comm

/-! ## Searches -/

/-- Seeking looks at one day and goes on from the next one. -/
theorem seekOpen?_eq (isOpen : Day → Bool) (way : Heading) (count : Nat) (d : Day) :
    seekOpen? isOpen way count d =
      if (if isOpen d then count - 1 else count) = 0 then some d
      else (d.step? way).bind (seekOpen? isOpen way (if isOpen d then count - 1 else count)) := by
  rw [seekOpen?]
  generalize (if isOpen d then count - 1 else count) = left
  dsimp only
  split
  · rfl
  · split
    · rename_i h
      rw [h]
      rfl
    · rename_i h
      rw [h]
      rfl

/-- Two searches one after the other are one search, since both count the day between them. -/
theorem seekOpen?_add (isOpen : Day → Bool) (way : Heading) (d : Day) (hm : 0 < m) (hn : 0 < n) :
    seekOpen? isOpen way (m + n - 1) d =
      (seekOpen? isOpen way m d).bind (seekOpen? isOpen way n) := by
  fun_induction seekOpen? isOpen way m d with
  | case1 m d left hleft =>
    have hone : m = 1 := by grind
    rw [hone, Nat.add_sub_cancel_left]
    rfl
  | case2 m d left hleft hstep =>
    rw [seekOpen?_eq, hstep, if_neg (by grind)]
    rfl
  | case3 m d left hleft next hstep hroom ih =>
    have hrest : (if isOpen d then m + n - 1 - 1 else m + n - 1) = left + n - 1 := by grind
    rw [seekOpen?_eq, hrest, if_neg (by omega), hstep, ← ih (Nat.pos_of_ne_zero hleft)]
    rfl

/-- Seeking one open day finds the first one. -/
theorem onward_of_seekOpen?_one (h : seekOpen? isOpen way 1 d = some e) (ha : isOpen a = true)
    (hda : Onward way d a) : Onward way e a := by
  obtain ⟨he, hde, hcard⟩ := seekOpen?_spec h one_pos
  rcases onward_total way e a with hea | hae
  · exact hea
  · have hsame : a = e := (Set.ncard_le_one).mp hcard.le a ⟨ha, hda, hae⟩ e
      ⟨he, hde, onward_refl way e⟩
    rw [hsame]
    exact onward_refl way e

theorem eq_of_seekOpen?_one (h : seekOpen? isOpen way 1 d = some e) (hd : isOpen d = true) :
    e = d := by
  obtain ⟨-, hde, -⟩ := seekOpen?_spec h one_pos
  exact (onward_of_seekOpen?_one h hd (onward_refl way d)).antisymm hde

/-- Seeking back as many open days as were sought ends on the first open day from the day on which
the search began. -/
theorem seekOpen?_reverse (h : seekOpen? isOpen way n d = some b) (hn : 0 < n) :
    ∃ e, seekOpen? isOpen way.reverse n b = some e ∧ seekOpen? isOpen way 1 d = some e := by
  have hsum := seekOpen?_add isOpen way d one_pos hn
  rw [Nat.add_sub_cancel_left, h] at hsum
  obtain ⟨e, he, hb⟩ := Option.bind_eq_some_iff.mp hsum.symm
  obtain ⟨hopen, -, -⟩ := seekOpen?_spec he one_pos
  obtain ⟨-, heb, hcard⟩ := seekOpen?_spec hb hn
  refine ⟨e, seekOpen?_of_ncard hopen (onward_reverse.mpr heb) ?_ hn, he⟩
  rw [openOnward_reverse, hcard]

end Day

namespace WorkCalendar

variable {c : WorkCalendar} {d e r : Day} {way : Heading} {m n : Nat}

/-! ## Steps -/

theorem step?_add (way : Heading) (hm : 2 ≤ m) (hn : 2 ≤ n) (hbound : m + n - 1 ≤ longestStep) :
    c.step? d (way.signed (m + n - 1)) =
      (c.step? d (way.signed m)).bind (c.step? · (way.signed n)) := by
  rw [step?_signed c d way (by omega) hbound, step?_signed c d way hm (by omega),
    Day.seekOpen?_add c.isOpen way d (by omega) (by omega)]
  exact Option.bind_congr fun e _ => (step?_signed c e way hn (by omega)).symm

theorem addBusinessDays_add (c : WorkCalendar) (d : Day) (way : Heading) (hm : 2 ≤ m) (hn : 2 ≤ n)
    (hbound : m + n - 1 ≤ longestStep) (r : Day) :
    c.addBusinessDays d (Number.ofInt (way.signed (m + n - 1))) = .ok r ↔
      (c.addBusinessDays d (Number.ofInt (way.signed m)) >>= fun e =>
        c.addBusinessDays e (Number.ofInt (way.signed n))) = .ok r := by
  rw [Outcome.bind_eq_ok, addBusinessDays_ofInt_eq_ok_iff, step?_add way hm hn hbound,
    Option.bind_eq_some_iff]
  simp only [addBusinessDays_ofInt_eq_ok_iff]

theorem addBusinessDays_reverse (way : Heading) (hn : 2 ≤ n)
    (h : c.addBusinessDays d (Number.ofInt (way.signed n)) = .ok r) :
    ∃ e, c.addBusinessDays r (Number.ofInt (way.reverse.signed n)) = .ok e ∧
      Day.seekOpen? c.isOpen way 1 d = some e := by
  have hstep := addBusinessDays_ofInt_eq_ok_iff.mp h
  have hbound := le_longestStep_of_step? hstep
  rw [step?_signed c d way hn hbound] at hstep
  obtain ⟨e, hback, hfirst⟩ := Day.seekOpen?_reverse hstep (by omega)
  exact ⟨e, addBusinessDays_ofInt_eq_ok_iff.mpr
    ((step?_signed c r way.reverse hn hbound).trans hback), hfirst⟩

theorem isLeast_of_seekOpen?_one (h : Day.seekOpen? c.isOpen .forward 1 d = some e) :
    IsLeast (c.openDaysFrom d) e := by
  obtain ⟨hopen, hle, -⟩ := Day.seekOpen?_spec h one_pos
  exact ⟨⟨hopen, hle⟩, fun a ha => Day.onward_of_seekOpen?_one h ha.1 ha.2⟩

theorem isGreatest_of_seekOpen?_one (h : Day.seekOpen? c.isOpen .backward 1 d = some e) :
    IsGreatest (c.openDaysUpTo d) e := by
  obtain ⟨hopen, hle, -⟩ := Day.seekOpen?_spec h one_pos
  exact ⟨⟨hopen, hle⟩, fun a ha => Day.onward_of_seekOpen?_one h ha.1 ha.2⟩

/-- Steps of whole numbers of business days go one after the other and back again, whatever days
are closed. A step of `m` days and then one of `n` days are one step of `m + n - 1` days, so that
one side fails exactly when the other one does. After a step, a step back of as many days ends on
the first open day from the day the first one started on, which is that day itself if it is
open. -/
theorem addBusinessDays_composes (c : WorkCalendar) (d : Day) :
    (∀ m n : Int, 2 ≤ m → 2 ≤ n → m + n - 1 ≤ longestStep → ∀ r,
      (c.addBusinessDays d (Number.ofInt (m + n - 1)) = .ok r ↔
        (c.addBusinessDays d (Number.ofInt m) >>= fun e =>
          c.addBusinessDays e (Number.ofInt n)) = .ok r) ∧
      (c.addBusinessDays d (Number.ofInt (-(m + n - 1))) = .ok r ↔
        (c.addBusinessDays d (Number.ofInt (-m)) >>= fun e =>
          c.addBusinessDays e (Number.ofInt (-n))) = .ok r)) ∧
    ∀ n : Int, 2 ≤ n → ∀ r,
      (c.addBusinessDays d (Number.ofInt n) = .ok r →
        ∃ e, c.addBusinessDays r (Number.ofInt (-n)) = .ok e ∧ IsLeast (c.openDaysFrom d) e ∧
          (c.isOpen d = true → e = d)) ∧
      (c.addBusinessDays d (Number.ofInt (-n)) = .ok r →
        ∃ e, c.addBusinessDays r (Number.ofInt n) = .ok e ∧ IsGreatest (c.openDaysUpTo d) e ∧
          (c.isOpen d = true → e = d)) := by
  constructor
  · intro m n hm hn hbound r
    lift m to ℕ using by omega
    lift n to ℕ using by omega
    have hsum : (m : Int) + n - 1 = ((m + n - 1 : Nat) : Int) := by omega
    rw [hsum] at hbound ⊢
    exact ⟨addBusinessDays_add c d .forward (by omega) (by omega) (by omega) r,
      addBusinessDays_add c d .backward (by omega) (by omega) (by omega) r⟩
  · intro n hn r
    lift n to ℕ using by omega
    constructor
    · intro h
      obtain ⟨e, hback, hfirst⟩ := addBusinessDays_reverse .forward (by omega) h
      exact ⟨e, hback, isLeast_of_seekOpen?_one hfirst, Day.eq_of_seekOpen?_one hfirst⟩
    · intro h
      obtain ⟨e, hback, hfirst⟩ := addBusinessDays_reverse .backward (by omega) h
      exact ⟨e, hback, isGreatest_of_seekOpen?_one hfirst, Day.eq_of_seekOpen?_one hfirst⟩

/-- From a closed Saturday three days lead to the Wednesday, as two and two days do; three days back
lead to the first open day after the weekend. -/
theorem composes_over_weekend :
    (2 : Int) + 2 - 1 ≤ longestStep ∧
    (weekendOff.addBusinessDays saturday (Number.ofInt 2) >>= fun e =>
      weekendOff.addBusinessDays e (Number.ofInt 2)) = .ok wednesday ∧
    ∃ e, weekendOff.addBusinessDays wednesday (Number.ofInt (-3)) = .ok e ∧
      IsLeast (weekendOff.openDaysFrom saturday) e := by
  have hbound : (2 : Int) + 2 - 1 ≤ longestStep := by decide
  have hstep : weekendOff.addBusinessDays saturday (Number.ofInt (2 + 2 - 1)) = .ok wednesday :=
    addBusinessDays_ofInt_eq_ok_iff.mpr (by decide +kernel)
  obtain ⟨hsum, hback⟩ := addBusinessDays_composes weekendOff saturday
  obtain ⟨e, he, hleast, -⟩ := (hback 3 (by decide) wednesday).1 hstep
  exact ⟨hbound, (hsum 2 2 (by decide) (by decide) hbound wednesday).1.mp hstep, e, he, hleast⟩

end WorkCalendar

end GanttChart
