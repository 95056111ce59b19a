import GanttChart.Chart.Layout
import GanttChart.Proofs.Calendar.Counting
import GanttChart.Proofs.Schedule.Calendar
import Mathlib.Data.List.Chain
import Mathlib.Data.List.Range

/-! # The days of a window

Days are listed one after the other, each as long as another day follows it in the range of days.
So a window is listed without a gap, but the last day of the range is never listed: a window that
ends with it has a column more than it has days listed, and the day is not closed with the others
of its weekday. -/

namespace GanttChart

namespace Day

variable {first last d : Day}

/-- The last day of the range. -/
def latest : Day := ⟨lastDayNumber, by decide, by decide⟩

theorem ne_latest_iff : d ≠ latest ↔ d.number < lastDayNumber := by
  have hle := d.le_last
  rw [ne_eq, Day.ext_iff]
  show ¬ d.number = lastDayNumber ↔ d.number < lastDayNumber
  omega

/-- The numbers of the listed days count up from the first one. -/
theorem map_number_span (first last : Day) :
    (span first last).map number =
      (List.range (min (last.number + 1) lastDayNumber - first.number).toNat).map fun i : ℕ =>
        first.number + i := by
  rw [span, List.map_filterMap, ← List.filterMap_eq_map]
  refine List.filterMap_congr fun i hi => ?_
  have hfirst := first.first_le
  rw [List.mem_range] at hi
  have hplus : first.plus? i = some ⟨first.number + i, by omega, by omega⟩ := plus?_eq_some.mpr rfl
  rw [hplus]
  rfl

theorem pairwise_span (first last : Day) : (span first last).Pairwise (· < ·) := by
  have hnumbers : ((span first last).map number).Pairwise (· < ·) := by
    rw [map_number_span, List.pairwise_map]
    exact List.pairwise_lt_range.imp fun hij => by omega
  rwa [List.pairwise_map] at hnumbers

theorem length_span (first last : Day) : (span first last).length =
    (min (last.number + 1) lastDayNumber - first.number).toNat := by
  rw [← List.length_map number, map_number_span, List.length_map, List.length_range]

/-- Each listed day is the next one after the day before it. -/
theorem isChain_span (first last : Day) :
    (span first last).IsChain fun a b => a.step? .forward = some b := by
  have hnumbers : ((span first last).map number).IsChain fun m n => n = m + 1 := by
    rw [map_number_span, List.isChain_map, List.isChain_range]
    intro i _
    rw [Nat.cast_succ, Int.add_assoc]
  rw [List.isChain_map] at hnumbers
  exact hnumbers.imp fun a b hab => plus?_eq_some.mpr hab

end Day

namespace WorkCalendar

variable {c : WorkCalendar} {d : Day} {name : String}

/-- The days that a calendar is about. -/
def window (c : WorkCalendar) : Set Day := {d | c.start ≤ d ∧ d ≤ c.finish}

theorem mem_days : d ∈ c.days ↔ d ∈ c.window ∧ d ≠ .latest := by
  rw [days, Day.mem_span, Day.ne_latest_iff]
  exact and_assoc.symm

theorem mem_days_of_finish (h : c.finish ≠ .latest) : d ∈ c.days ↔ d ∈ c.window := by
  rw [mem_days, and_iff_left_iff_imp, Day.ne_latest_iff]
  rintro ⟨_, hlast⟩
  exact Int.lt_of_le_of_lt hlast (Day.ne_latest_iff.mp h)

/-- A window is listed whole unless it ends with the last day of the range. -/
theorem forall_mem_days_iff (h : c.start ≤ c.finish) :
    (∀ d, d ∈ c.days ↔ d ∈ c.window) ↔ c.finish ≠ .latest := by
  constructor
  · intro hall
    exact (mem_days.mp ((hall c.finish).mpr ⟨h, Int.le_refl _⟩)).2
  · intro hfinish d
    exact mem_days_of_finish hfinish

theorem dayCount_eq (h : c.start ≤ c.finish) :
    c.dayCount = c.days.length + if c.finish = .latest then 1 else 0 := by
  have hlast := c.finish.le_last
  have hle : c.start.number ≤ c.finish.number := h
  rw [days, Day.length_span, dayCount, Day.distance]
  split
  · rename_i heq
    have hnumber : c.finish.number = lastDayNumber := congrArg Day.number heq
    omega
  · rename_i hne
    have hnumber := Day.ne_latest_iff.mp hne
    omega

/-- A weekday closes its days in the window, of which the last day of the range is none. -/
theorem isClosed_closeWeekday : (c.closeWeekday name).isClosed d = true ↔
    c.isClosed d = true ∨
      d ∈ c.window ∧ Weekday.ofText? name = some d.weekday ∧ d ≠ .latest := by
  have hmem : d ∈ Day.span c.start c.finish ↔ d ∈ c.window ∧ d ≠ .latest := mem_days
  rw [closeWeekday, isClosed_closeAll, Day.mem_spanOn, hmem, or_comm, and_left_comm]

/-- The days of a window are listed in their order and without a gap, all of them but the last day
of the range; so they are all listed exactly when the window does not end with that day, and only
then are there as many as the window has days and the canvas columns. A weekday closes all of its
days in the window, again but the last day of the range. -/
theorem days_list_window (c : WorkCalendar) (h : c.start ≤ c.finish) :
    (c.days.IsChain fun a b => a.step? .forward = some b) ∧
    (∀ d, d ∈ c.days ↔ d ∈ c.window ∧ d ≠ .latest) ∧
    ((∀ d, d ∈ c.days ↔ d ∈ c.window) ↔ c.finish ≠ .latest) ∧
    c.dayCount = c.days.length + (if c.finish = .latest then 1 else 0) ∧
    (∀ (s : Schedule) (chart : ChartConfig), s.calendar = c →
      (Layout.ofSchedule chart s).width = Layout.columnWidthOf chart c.scale *
        Number.ofInt (c.days.length + if c.finish = .latest then 1 else 0)) ∧
    ∀ name d, (c.closeWeekday name).isClosed d = true ↔
      c.isClosed d = true ∨
        d ∈ c.window ∧ Weekday.ofText? name = some d.weekday ∧ d ≠ .latest := by
  refine ⟨Day.isChain_span _ _, fun d => mem_days, forall_mem_days_iff h, dayCount_eq h, ?_,
    fun name d => isClosed_closeWeekday⟩
  rintro s chart rfl
  rw [← dayCount_eq h]
  rfl

/-- The window of the last two days of the range. -/
def lastTwo : WorkCalendar := ofWindow lastButOne .latest lastButOne .daily

/-- Of the last two days of the range the first one is listed. -/
theorem lastTwo_list_window : lastTwo.start ≤ lastTwo.finish ∧
    lastButOne ∈ lastTwo.days ∧ lastTwo.dayCount = lastTwo.days.length + 1 := by
  have hle : lastTwo.start ≤ lastTwo.finish := by decide
  obtain ⟨_, hmem, _, hcount, _⟩ := days_list_window lastTwo hle
  rw [if_pos (show lastTwo.finish = .latest from rfl)] at hcount
  exact ⟨hle, (hmem lastButOne).mpr ⟨⟨by decide, by decide⟩, by decide⟩, hcount⟩

/-- The second one is not, and it stays open when the Mondays are closed, although it is one. -/
theorem exists_day_not_listed : ∃ c : WorkCalendar, c.start ≤ c.finish ∧
    (∃ d ∈ c.window, d ∉ c.days) ∧ (c.days.length : Int) ≠ c.dayCount ∧
    ∃ name, ∃ d ∈ c.window, Weekday.ofText? name = some d.weekday ∧
      (c.closeWeekday name).isClosed d = false := by
  refine ⟨lastTwo, by decide, ⟨.latest, ⟨by decide, by decide⟩, by decide +kernel⟩,
    by decide +kernel, "Monday", .latest, ⟨by decide, by decide⟩, by decide +kernel,
    by decide +kernel⟩

end WorkCalendar

end GanttChart
