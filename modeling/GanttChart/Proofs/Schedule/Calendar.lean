import GanttChart.Proofs.Day.Weekday
import GanttChart.Proofs.Outcome
import GanttChart.Schedule.Resolve

/-! # The closed days of a calendar

The entries of a project close days one after the other. Whatever their order, the closed days of
the calendar are those that some entry stands for. -/

namespace GanttChart

open Outcome

variable {first last d e : Day} {name entry : String} {c : WorkCalendar}

/-- The days that a lone entry stands for: the day of a date, or else all days of the window on a
weekday. -/
inductive Closes (first last : Day) (entry : String) (d : Day) : Prop
  | date (h : Day.read? entry = some d)
  | weekday (hdate : Day.read? entry = none) (h : Weekday.ofText? entry = some d.weekday)
      (hfirst : first ≤ d) (hlast : d ≤ last)

theorem Day.mem_spanOn : d ∈ spanOn name first last ↔
    Weekday.ofText? name = some d.weekday ∧ d ∈ span first last := by
  unfold spanOn
  cases h : Weekday.ofText? name with
  | none => simp
  | some w => simp [and_comm, eq_comm]

namespace WorkCalendar

variable {days : List Day}

theorem isClosed_close_iff : (c.close d).isClosed e = true ↔ e = d ∨ c.isClosed e = true := by
  rw [isClosed_close, Bool.or_eq_true, beq_iff_eq, Std.LawfulEqOrd.compare_eq_iff_eq, eq_comm]

theorem isClosed_closeAll :
    (c.closeAll days).isClosed d = true ↔ d ∈ days ∨ c.isClosed d = true := by
  unfold closeAll
  induction days generalizing c with
  | nil => simp
  | cons e days ih =>
    rw [List.foldl_cons, ih, isClosed_close_iff, List.mem_cons, or_left_comm, or_assoc]

theorem window_closeAll :
    (c.closeAll days).start = c.start ∧ (c.closeAll days).finish = c.finish := by
  unfold closeAll
  induction days generalizing c with
  | nil => exact ⟨rfl, rfl⟩
  | cons e days ih => exact ih

end WorkCalendar

namespace ProjectSection

variable {entries : List String} {p : ProjectSection}

theorem window_closeEntry (c : WorkCalendar) (entry : String) :
    (closeEntry c entry).start = c.start ∧ (closeEntry c entry).finish = c.finish := by
  unfold closeEntry
  split
  · exact ⟨rfl, rfl⟩
  · exact WorkCalendar.window_closeAll

/-- The last day of the range cannot be closed by its weekday. -/
theorem isClosed_closeEntry (hfinish : c.finish.number < lastDayNumber) :
    (closeEntry c entry).isClosed d = true ↔
      Closes c.start c.finish entry d ∨ c.isClosed d = true := by
  unfold closeEntry
  split
  · rename_i a hdate
    rw [WorkCalendar.isClosed_close_iff]
    refine or_congr_left ⟨?_, ?_⟩
    · rintro rfl
      exact .date hdate
    · intro h
      cases h with
      | date h => exact Option.some.inj (h.symm.trans hdate)
      | weekday hnone =>
        rw [hdate] at hnone
        cases hnone
  · rename_i hdate
    rw [WorkCalendar.closeWeekday, WorkCalendar.isClosed_closeAll, Day.mem_spanOn, Day.mem_span]
    refine or_congr_left ⟨?_, ?_⟩
    · rintro ⟨hname, hfirst, hlast, _⟩
      exact .weekday hdate hname hfirst hlast
    · intro h
      cases h with
      | date h =>
        rw [hdate] at h
        cases h
      | weekday _ hname hfirst hlast =>
        exact ⟨hname, hfirst, hlast, Int.lt_of_le_of_lt hlast hfinish⟩

theorem window_foldl_closeEntry (c : WorkCalendar) (entries : List String) :
    (entries.foldl closeEntry c).start = c.start ∧
      (entries.foldl closeEntry c).finish = c.finish := by
  induction entries generalizing c with
  | nil => exact ⟨rfl, rfl⟩
  | cons entry entries ih =>
    obtain ⟨hs, hf⟩ := window_closeEntry c entry
    rw [List.foldl_cons, (ih _).1, (ih _).2, hs, hf]
    exact ⟨rfl, rfl⟩

theorem isClosed_foldl_closeEntry (hfinish : c.finish.number < lastDayNumber) :
    (entries.foldl closeEntry c).isClosed d = true ↔
      (∃ entry ∈ entries, Closes c.start c.finish entry d) ∨ c.isClosed d = true := by
  induction entries generalizing c with
  | nil => simp
  | cons entry entries ih =>
    obtain ⟨hs, hf⟩ := window_closeEntry c entry
    rw [List.foldl_cons, ih (by rwa [hf]), isClosed_closeEntry hfinish, hs, hf]
    simp only [List.mem_cons, or_and_right, exists_or, exists_eq_left, or_assoc, or_left_comm]

theorem calendar_eq_ok (h : p.calendar = .ok c) :
    ∃ base, base.closed = ∅ ∧ c = p.closed.foldl closeEntry base := by
  obtain ⟨start, _, h⟩ := bind_eq_ok.mp h
  obtain ⟨finish, _, h⟩ := bind_eq_ok.mp h
  obtain ⟨today, _, h⟩ := bind_eq_ok.mp h
  split at h
  · cases h
  · cases h
    exact ⟨_, rfl, rfl⟩

/-- A day is closed if and only if some entry of the project stands for it. -/
theorem isClosed_of_calendar (h : p.calendar = .ok c) (hfinish : c.finish.number < lastDayNumber) :
    c.isClosed d = true ↔ ∃ entry ∈ p.closed, Closes c.start c.finish entry d := by
  obtain ⟨base, hbase, rfl⟩ := calendar_eq_ok h
  obtain ⟨hs, hf⟩ := window_foldl_closeEntry base p.closed
  have hopen : base.isClosed d = false := by simp [WorkCalendar.isClosed, hbase]
  rw [hf] at hfinish
  simp [isClosed_foldl_closeEntry hfinish, hs, hf, hopen]

end ProjectSection

end GanttChart
