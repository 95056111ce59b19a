import GanttChart.Day.Weekday
import GanttChart.Proofs.Day.Text
import Mathlib.Logic.Function.Iterate

/-! # Weekdays

No text is both a date and the name of a weekday. The weekdays between two others are those that one
meets going round the week from the one and not beyond the other. -/

namespace GanttChart.Weekday

variable {first last w : Weekday}

theorem ofText?_eq_none_of_read? {d : Day} {s : String} (h : Day.read? s = some d) :
    ofText? s = none := by
  obtain ⟨c, cs, hcs, hc⟩ := Day.head_of_read? h
  simp only [ofText?, hcs, List.find?_eq_none, beq_iff_eq]
  intro w _ hw
  have hhead := congrArg (fun t => t.toList.head?) hw
  have hletter : c.toLower ∈ ['m', 't', 'w', 'f', 's'] := by
    cases w <;> simp [Text.lowerAscii, Weekday.label] at hhead <;> simp [← hhead]
  rcases hc with rfl | rfl | hc
  · revert hletter
    decide
  · revert hletter
    decide
  · have hlower : c.toLower = c := by
      refine dif_neg fun hupper => ?_
      have hdigit : c.toNat ≤ 57 := (Char.isDigit_iff_toNat.mp hc).2
      have hA : 65 ≤ c.toNat := UInt32.le_iff_toNat_le.mp hupper.1
      omega
    rw [hlower] at hletter
    simp only [List.mem_cons, List.not_mem_nil, or_false] at hletter
    rcases hletter with rfl | rfl | rfl | rfl | rfl <;> cases hc

theorem ofText?_name (w : Weekday) : ofText? w.name = some w := by
  cases w <;> decide +kernel

theorem read?_name (w : Weekday) : Day.read? w.name = none := by
  rw [Option.eq_none_iff_forall_ne_some]
  intro d hd
  have hnone := ofText?_eq_none_of_read? hd
  rw [w.ofText?_name] at hnone
  cases hnone

/-- Going round the week from one day, another one is met before a last one is left behind. -/
def Meets (first last w : Weekday) : Prop :=
  ∃ n, next^[n] first = w ∧ ∀ i < n, next^[i] first ≠ last

theorem mem_walk {steps : Nat} : w ∈ walk first last steps ↔
    ∃ n ≤ steps, next^[n] first = w ∧ ∀ i < n, next^[i] first ≠ last := by
  induction steps generalizing first with
  | zero => simp [walk, eq_comm]
  | succ steps ih =>
    rw [walk]
    split
    · rename_i heq
      constructor
      · intro hw
        exact ⟨0, by omega, (List.mem_singleton.mp hw).symm, by simp⟩
      · rintro ⟨n, _, hn, hbefore⟩
        cases n with
        | zero => exact List.mem_singleton.mpr hn.symm
        | succ n => exact absurd heq (hbefore 0 (by omega))
    · rename_i hne
      rw [List.mem_cons, ih]
      constructor
      · rintro (rfl | ⟨n, hle, hn, hbefore⟩)
        · exact ⟨0, by omega, rfl, by simp⟩
        · refine ⟨n + 1, by omega, hn, fun i hi => ?_⟩
          cases i with
          | zero => exact hne
          | succ i => exact hbefore i (by omega)
      · rintro ⟨n, hle, hn, hbefore⟩
        cases n with
        | zero => exact .inl hn.symm
        | succ n => exact .inr ⟨n, by omega, hn, fun i hi => hbefore (i + 1) (by omega)⟩

theorem exists_iterate_next (first last : Weekday) : ∃ i < 7, next^[i] first = last := by
  cases first <;> cases last <;> decide

/-- Six steps are enough to go round the week. -/
theorem mem_cycle : w ∈ cycle first last ↔ Meets first last w := by
  rw [cycle, mem_walk]
  constructor
  · rintro ⟨n, _, h⟩
    exact ⟨n, h⟩
  · rintro ⟨n, hn, hbefore⟩
    obtain ⟨i, hi, hlast⟩ := exists_iterate_next first last
    have hle : n ≤ i := Nat.not_lt.mp fun hlt => hbefore i hlt hlast
    exact ⟨n, by omega, hn, hbefore⟩

example : Meets friday monday sunday := ⟨2, by decide⟩

end GanttChart.Weekday
