import GanttChart.Proofs.Calendar.Composition

/-! # Where steps end compared

A step that starts later, has more business days or goes over more closed days does not end earlier,
and it does not reach further than the range of days where the other one does not. What compares two
searches is the number of open days up to where the longer one ends: the shorter one has found what
it seeks by then. -/

namespace GanttChart

namespace Day

variable {isOpen isOpen' : Day → Bool} {way : Heading} {count m n : Nat} {a b d d' e e' : Day}

theorem Onward.trans (h : Onward way a b) (h' : Onward way b d) : Onward way a d := by
  cases way with
  | forward => exact Int.le_trans h h'
  | backward => exact Int.le_trans h' h

/-- Seeking ends no later than on a day up to which there are enough open days. -/
theorem exists_seekOpen?_of_le (hpos : 0 < count)
    (hle : count ≤ (openOnward isOpen way d b).ncard) :
    ∃ e, seekOpen? isOpen way count d = some e ∧ Onward way e b := by
  cases hseek : seekOpen? isOpen way count d with
  | none =>
    have hfew := (seekOpen?_eq_none_iff hpos).mp hseek
    have hsub : openOnward isOpen way d b ⊆ openBeyond isOpen way d := fun a ha => ⟨ha.1, ha.2.1⟩
    have hmany := Set.ncard_le_ncard hsub
    omega
  | some e =>
    obtain ⟨hopen, hde, hcard⟩ := seekOpen?_spec hseek hpos
    refine ⟨e, rfl, ?_⟩
    by_contra hbeyond
    have hbe : Onward way b e := (onward_total way e b).resolve_left hbeyond
    -- the day that was found lies beyond, so that there are fewer open days up to `b`
    have hsub : openOnward isOpen way d b ⊆ openOnward isOpen way d e :=
      fun a ha => ⟨ha.1, ha.2.1, ha.2.2.trans hbe⟩
    have hstrict : openOnward isOpen way d b ⊂ openOnward isOpen way d e :=
      (Set.ssubset_iff_of_subset hsub).mpr
        ⟨e, ⟨hopen, hde, onward_refl way e⟩, fun he => hbeyond he.2.2⟩
    have hless := Set.ncard_lt_ncard hstrict
    omega

theorem seekOpen?_mono (hopen : ∀ a, isOpen' a = true → isOpen a = true) (hstart : Onward way d d')
    (hpos : 0 < m) (hle : m ≤ n) (h : seekOpen? isOpen' way n d' = some e') :
    ∃ e, seekOpen? isOpen way m d = some e ∧ Onward way e e' := by
  obtain ⟨-, -, hcard⟩ := seekOpen?_spec h (by omega)
  have hsub : openOnward isOpen' way d' e' ⊆ openOnward isOpen way d e' :=
    fun a ha => ⟨hopen a ha.1, hstart.trans ha.2.1, ha.2.2⟩
  have hmany := Set.ncard_le_ncard hsub
  exact exists_seekOpen?_of_le hpos (by omega)

end Day

namespace WorkCalendar

variable {c c' : WorkCalendar} {d d' e' : Day} {way : Heading} {m n : Nat}

theorem isOpen_of_isClosed_imp (hclosed : ∀ a, c.isClosed a = true → c'.isClosed a = true) (a : Day)
    (h : c'.isOpen a = true) : c.isOpen a = true := by
  unfold isOpen at h ⊢
  by_cases hc : c.isClosed a = true
  · rw [hclosed a hc] at h
    cases h
  · rw [Bool.not_eq_true] at hc
    rw [hc]
    rfl

theorem isClosed_close_of_isClosed (x : Day) {a : Day} (h : c.isClosed a = true) :
    (c.close x).isClosed a = true := by
  rw [isClosed_close, h, Bool.or_true]

theorem step?_mono (way : Heading) (hclosed : ∀ a, c.isClosed a = true → c'.isClosed a = true)
    (hle : m ≤ n) (hstart : Day.Onward way d d') (h : c'.step? d' (way.signed n) = some e') :
    ∃ e, c.step? d (way.signed m) = some e ∧ Day.Onward way e e' := by
  have hbound := le_longestStep_of_step? h
  by_cases hn : n ≤ 1
  · -- neither step moves
    rw [step?_signed_of_le_one c' d' way hn] at h
    cases h
    exact ⟨d, step?_signed_of_le_one c d way (by omega), hstart⟩
  · rw [step?_signed c' d' way (by omega) hbound] at h
    by_cases hm : m ≤ 1
    · obtain ⟨-, hend, -⟩ := Day.seekOpen?_spec h (by omega)
      exact ⟨d, step?_signed_of_le_one c d way hm, hstart.trans hend⟩
    · rw [step?_signed c d way (by omega) (by omega)]
      exact Day.seekOpen?_mono (isOpen_of_isClosed_imp hclosed) hstart (by omega) hle h

theorem addBusinessDays_signed_mono (way : Heading)
    (hclosed : ∀ a, c.isClosed a = true → c'.isClosed a = true) (hle : m ≤ n)
    (hstart : Day.Onward way d d')
    (h : c'.addBusinessDays d' (Number.ofInt (way.signed n)) = .ok e') :
    ∃ e, c.addBusinessDays d (Number.ofInt (way.signed m)) = .ok e ∧ Day.Onward way e e' := by
  obtain ⟨e, he, hend⟩ := step?_mono way hclosed hle hstart (addBusinessDays_ofInt_eq_ok_iff.mp h)
  exact ⟨e, addBusinessDays_ofInt_eq_ok_iff.mpr he, hend⟩

/-- Adding whole numbers of business days is monotone in the start, the number of days and the
closed days together: where the longer step over more closed days from the later start succeeds, the
other one does, and it does not end later. Backwards it is the same with the order of days turned
round. So a day that is closed in addition never moves an end to an earlier day. -/
theorem addBusinessDays_mono (c : WorkCalendar) :
    (∀ c' : WorkCalendar, (∀ a, c.isClosed a = true → c'.isClosed a = true) →
      ∀ n n' : Int, 0 ≤ n → n ≤ n' → ∀ d d' e',
        (d ≤ d' → c'.addBusinessDays d' (Number.ofInt n') = .ok e' →
          ∃ e, c.addBusinessDays d (Number.ofInt n) = .ok e ∧ e ≤ e') ∧
        (d' ≤ d → c'.addBusinessDays d' (Number.ofInt (-n')) = .ok e' →
          ∃ e, c.addBusinessDays d (Number.ofInt (-n)) = .ok e ∧ e' ≤ e)) ∧
    ∀ (x d e' : Day) (n : Int), 0 ≤ n → (c.close x).addBusinessDays d (Number.ofInt n) = .ok e' →
      ∃ e, c.addBusinessDays d (Number.ofInt n) = .ok e ∧ e ≤ e' := by
  constructor
  · intro c' hclosed n n' hn hle d d' e'
    lift n to ℕ using hn
    lift n' to ℕ using by omega
    have hcount : n ≤ n' := by omega
    exact ⟨addBusinessDays_signed_mono .forward hclosed hcount,
      addBusinessDays_signed_mono .backward hclosed hcount⟩
  · intro x d e' n hn h
    lift n to ℕ using hn
    exact addBusinessDays_signed_mono .forward (fun _ => isClosed_close_of_isClosed x)
      (Nat.le_refl n) (Day.onward_refl .forward d) h

/-- The Thursday after that Saturday. -/
def thursday : Day := ⟨18361, by decide, by decide⟩

/-- With the Wednesday closed as well, three days from the Saturday lead to the Thursday. -/
theorem mono_over_weekend :
    (∀ a, weekendOff.isClosed a = true → (weekendOff.close wednesday).isClosed a = true) ∧
    (weekendOff.close wednesday).addBusinessDays saturday (Number.ofInt 3) = .ok thursday ∧
    ∃ e, weekendOff.addBusinessDays saturday (Number.ofInt 3) = .ok e ∧ e ≤ thursday := by
  have hclosed : ∀ a, weekendOff.isClosed a = true →
      (weekendOff.close wednesday).isClosed a = true := fun _ => isClosed_close_of_isClosed wednesday
  have hstep : (weekendOff.close wednesday).addBusinessDays saturday (Number.ofInt 3) =
      .ok thursday := addBusinessDays_ofInt_eq_ok_iff.mpr (by decide +kernel)
  have hmono := (addBusinessDays_mono weekendOff).1 (weekendOff.close wednesday) hclosed 3 3
    (by decide) (by decide) saturday saturday thursday
  exact ⟨hclosed, hstep, hmono.1 (by decide) hstep⟩

end WorkCalendar

end GanttChart
