import GanttChart.Proofs.Schedule.Stages

/-! # The items of a schedule

An item of a document becomes an item of the schedule that shows the days of its plan. The plan
itself can only be missing; all other faults are faults of the actual block. -/

namespace GanttChart

open Outcome

/-- Why an actual block does not resolve. -/
inductive ActualRange.Fault (item : String) : ScheduleError → Prop
  | date {part : String} (hp : part ∈ [".actual", ".actual.start", ".actual.end", ".actual.completed"])
      (value : String) : Fault item (.invalidDate (item ++ part) value)
  | period (value : String) : Fault item (.unsupportedPeriod value)
  | progress (value : String) : Fault item (.unsupportedProgress value)

namespace ActualRange

variable {calendar : WorkCalendar} {item context : String} {err : ScheduleError}

theorem readDay_eq_error {raw : Option String} (h : readDay context raw = .error err) :
    ∃ value, err = .invalidDate context value := by
  cases raw with
  | none => cases h
  | some value =>
    simp only [readDay] at h
    split at h
    · cases h
    · cases h; exact ⟨value, rfl⟩

theorem readProgress_eq_error {raw : Option Scalar} (h : readProgress raw = .error err) :
    ∃ value, err = .unsupportedProgress value := by
  rcases raw with _ | ⟨x⟩ | s
  · cases h
  · simp only [readProgress] at h
    split at h
    · cases h
    · cases h; exact ⟨_, rfl⟩
  · cases h; exact ⟨_, rfl⟩

theorem finishByPeriod_eq_error {start : Day} {period : Option Scalar}
    (h : finishByPeriod calendar start period = .error err) :
    ∃ value, err = .unsupportedPeriod value := by
  cases period with
  | none => cases h
  | some period =>
    rcases bind_eq_error.mp h with h | ⟨days, _, h⟩
    · exact PlanTable.periodDays_eq_error h
    rcases bind_eq_error.mp h with h | ⟨e, _, h⟩
    · exact PlanTable.addBusinessDays_eq_error h
    · cases h

theorem finishByProgress_eq_error {start : Day} {progress : Float}
    (h : finishByProgress calendar start progress = .error err) :
    ∃ value, err = .unsupportedProgress value := by
  simp only [finishByProgress] at h
  split at h
  · cases h
  · cases h; exact ⟨_, rfl⟩

theorem resolve_eq_error {r : ActualRange} (h : r.resolve calendar item = .error err) :
    Fault item err := by
  unfold resolve at h
  rcases bind_eq_error.mp h with h | ⟨start, _, h⟩
  · obtain ⟨value, rfl⟩ := readDay_eq_error h
    exact .date (by simp) value
  rcases bind_eq_error.mp h with h | ⟨finish, _, h⟩
  · obtain ⟨value, rfl⟩ := readDay_eq_error h
    exact .date (by simp) value
  rcases bind_eq_error.mp h with h | ⟨completed, _, h⟩
  · obtain ⟨value, rfl⟩ := readDay_eq_error h
    exact .date (by simp) value
  rcases bind_eq_error.mp h with h | ⟨progress, _, h⟩
  · obtain ⟨value, rfl⟩ := readProgress_eq_error h
    exact .progress value
  cases start with
  | none => cases h
  | some first =>
    rcases bind_eq_error.mp h with h | ⟨byPeriod, _, h⟩
    · obtain ⟨value, rfl⟩ := finishByPeriod_eq_error h
      exact .period value
    cases progress with
    | none => cases h
    | some p =>
      simp only at h
      split at h
      · rcases bind_eq_error.mp h with h | ⟨last, _, h⟩
        · obtain ⟨value, rfl⟩ := finishByProgress_eq_error h
          exact .progress value
        · cases h
      · cases h

end ActualRange

namespace Entry

/-- An item of the schedule has the name of an item of the document and shows the days that an
assignment gives it; a milestone shows its first day. -/
inductive ShownAs (a : Assignment) : Entry → ScheduleItem → Prop
  | task {record : TaskRecord} {t : Task} (hn : t.name = record.name)
      (hd : a record.name = some ⟨t.planStart, t.planEnd⟩) : ShownAs a (.task record) (.task t)
  | milestone {record : MilestoneRecord} {m : Milestone} {finish : Day} (hn : m.name = record.name)
      (hd : a record.name = some ⟨m.planDay, finish⟩) : ShownAs a (.milestone record) (.milestone m)

variable {calendar : WorkCalendar} {palette : Palette} {table : PlanTable} {e : Entry}
  {i : ScheduleItem} {a : Assignment} {err : ScheduleError}

theorem ShownAs.name_eq (h : e.ShownAs a i) : i.name = e.name := by
  cases h with
  | task hn _ => exact hn
  | milestone hn _ => exact hn

theorem planned_of_resolve (h : e.resolve calendar palette table = .ok i) :
    ∃ p, table.get? e.name = some p := by
  unfold resolve at h
  split at h
  · cases h
  · exact ⟨_, by assumption⟩

theorem shownAs_of_resolve (h : e.resolve calendar palette table = .ok i) :
    e.ShownAs table.days i := by
  obtain ⟨p, hp⟩ := planned_of_resolve h
  simp only [resolve, hp] at h
  have hd := PlanTable.days_of_get? hp
  cases e with
  | task t =>
    obtain ⟨actual, _, h⟩ := bind_eq_ok.mp h
    cases h
    exact .task rfl hd
  | milestone m =>
    obtain ⟨actual, _, h⟩ := bind_eq_ok.mp h
    cases h
    exact .milestone rfl hd

/-- An item fails for want of a plan or by its actual block. -/
theorem resolve_eq_error (h : e.resolve calendar palette table = .error err) :
    (table.get? e.name = none ∧ err = .missingField (e.name ++ ".plan")) ∨
      ActualRange.Fault e.name err := by
  unfold resolve at h
  split at h
  · rename_i hnone
    cases h
    exact .inl ⟨hnone, rfl⟩
  · right
    cases e with
    | task t =>
      rcases bind_eq_error.mp h with h | ⟨actual, _, h⟩
      · unfold actualDays at h
        split at h
        · cases h
        · exact ActualRange.resolve_eq_error h
      · cases h
    | milestone m =>
      rcases bind_eq_error.mp h with h | ⟨actual, _, h⟩
      · obtain ⟨value, rfl⟩ := ActualRange.readDay_eq_error h
        exact .date (by simp) value
      · cases h

end Entry

end GanttChart
