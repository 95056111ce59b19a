import GanttChart.Proofs.Schedule.Faults

/-! # Dates of actual blocks

Resolving reads some of the texts of an actual block as dates, and only literal dates will do there.
An item with another text among them does not resolve, and whatever is reported under a field of an
actual block as no date is such a text. -/

namespace GanttChart

open Outcome

/-- What the fields of an actual block end with, in errors. -/
def ActualRange.fieldEnds : List String :=
  [".actual", ".actual.start", ".actual.end", ".actual.completed"]

/-- The texts of an actual block that are read as dates, by the fields they are reported under. -/
def ActualRange.dates (item : String) (r : ActualRange) : List (String × String) :=
  (r.start.map (item ++ ".actual.start", ·)).toList ++
    (r.finish.map (item ++ ".actual.end", ·)).toList ++
    (r.completed.map (item ++ ".actual.completed", ·)).toList

/-- Of a milestone only the one day is read. -/
def Entry.actualDates : Entry → List (String × String)
  | task t => t.actual.toList.flatMap fun a => a.toRange.dates t.name
  | milestone m => m.actual.toList.flatMap fun a => (a.day?.map (m.name ++ ".actual", ·)).toList

namespace ActualRange

variable {calendar : WorkCalendar} {item context field value : String} {raw : Option String}
  {r : ActualRange}

theorem mem_dates : (field, value) ∈ r.dates item ↔
    (r.start = some value ∧ field = item ++ ".actual.start") ∨
      (r.finish = some value ∧ field = item ++ ".actual.end") ∨
      (r.completed = some value ∧ field = item ++ ".actual.completed") := by
  simp [dates, eq_comm]

theorem readDay_eq_invalidDate (h : readDay context raw = .error (.invalidDate field value)) :
    field = context ∧ raw = some value ∧ Day.read? value = none := by
  cases raw with
  | none => cases h
  | some text =>
    simp only [readDay] at h
    split at h
    · cases h
    · rename_i hnone
      cases h
      exact ⟨rfl, rfl, hnone⟩

theorem isSome_of_readDay {day : Option Day} (h : readDay context (some value) = .ok day) :
    (Day.read? value).isSome := by
  simp only [readDay] at h
  split at h
  · rename_i hread
    rw [hread]
    rfl
  · cases h

/-- Only the dates of a block can be at fault as dates. -/
theorem unreadable_of_resolve
    (h : r.resolve calendar item = .error (.invalidDate field value)) :
    (field, value) ∈ r.dates item ∧ Day.read? value = none := by
  rw [mem_dates]
  unfold resolve at h
  rcases bind_eq_error.mp h with h | ⟨start, _, h⟩
  · obtain ⟨hfield, hraw, hnone⟩ := readDay_eq_invalidDate h
    exact ⟨.inl ⟨hraw, hfield⟩, hnone⟩
  rcases bind_eq_error.mp h with h | ⟨finish, _, h⟩
  · obtain ⟨hfield, hraw, hnone⟩ := readDay_eq_invalidDate h
    exact ⟨.inr (.inl ⟨hraw, hfield⟩), hnone⟩
  rcases bind_eq_error.mp h with h | ⟨completed, _, h⟩
  · obtain ⟨hfield, hraw, hnone⟩ := readDay_eq_invalidDate h
    exact ⟨.inr (.inr ⟨hraw, hfield⟩), hnone⟩
  rcases bind_eq_error.mp h with h | ⟨progress, _, h⟩
  · obtain ⟨_, heq⟩ := readProgress_eq_error h
    cases heq
  -- what is projected from the start has other faults
  cases start with
  | none => cases h
  | some first =>
    rcases bind_eq_error.mp h with h | ⟨byPeriod, _, h⟩
    · obtain ⟨_, heq⟩ := finishByPeriod_eq_error h
      cases heq
    cases progress with
    | none => cases h
    | some p =>
      simp only at h
      split at h
      · rcases bind_eq_error.mp h with h | ⟨last, _, h⟩
        · obtain ⟨_, heq⟩ := finishByProgress_eq_error h
          cases heq
        · cases h
      · cases h

theorem readable_of_resolve {days : ActualDays} (h : r.resolve calendar item = .ok days)
    (hd : (field, value) ∈ r.dates item) : (Day.read? value).isSome := by
  obtain ⟨start, hstart, h⟩ := bind_eq_ok.mp h
  obtain ⟨finish, hfinish, h⟩ := bind_eq_ok.mp h
  obtain ⟨completed, hcompleted, _⟩ := bind_eq_ok.mp h
  rcases mem_dates.mp hd with ⟨hraw, _⟩ | ⟨hraw, _⟩ | ⟨hraw, _⟩
  · exact isSome_of_readDay (hraw ▸ hstart)
  · exact isSome_of_readDay (hraw ▸ hfinish)
  · exact isSome_of_readDay (hraw ▸ hcompleted)

end ActualRange

namespace Entry

variable {calendar : WorkCalendar} {palette : Palette} {table : PlanTable} {e : Entry}
  {i : ScheduleItem} {field value : String}

theorem mem_actualDates_task {t : TaskRecord} : (field, value) ∈ (task t).actualDates ↔
    ∃ a, t.actual = some a ∧ (field, value) ∈ a.toRange.dates t.name := by
  simp [actualDates]

theorem mem_actualDates_milestone {m : MilestoneRecord} :
    (field, value) ∈ (milestone m).actualDates ↔
      ∃ a, m.actual = some a ∧ a.day? = some value ∧ field = m.name ++ ".actual" := by
  simp [actualDates, eq_comm]

theorem unreadable_of_resolve
    (h : e.resolve calendar palette table = .error (.invalidDate field value)) :
    (field, value) ∈ e.actualDates ∧ Day.read? value = none := by
  unfold resolve at h
  split at h
  · cases h
  cases e with
  | task t =>
    rcases bind_eq_error.mp h with h | ⟨_, _, h⟩
    · unfold actualDays at h
      split at h
      · cases h
      · rename_i a ha
        obtain ⟨hmem, hnone⟩ := ActualRange.unreadable_of_resolve h
        exact ⟨mem_actualDates_task.mpr ⟨a, ha, hmem⟩, hnone⟩
    · cases h
  | milestone m =>
    rcases bind_eq_error.mp h with h | ⟨_, _, h⟩
    · obtain ⟨hfield, hraw, hnone⟩ := ActualRange.readDay_eq_invalidDate h
      obtain ⟨a, ha, hday⟩ := Option.bind_eq_some_iff.mp hraw
      exact ⟨mem_actualDates_milestone.mpr ⟨a, ha, hday, hfield⟩, hnone⟩
    · cases h

theorem readable_of_resolve (h : e.resolve calendar palette table = .ok i)
    (hd : (field, value) ∈ e.actualDates) : (Day.read? value).isSome := by
  unfold resolve at h
  split at h
  · cases h
  cases e with
  | task t =>
    obtain ⟨a, ha, hd⟩ := mem_actualDates_task.mp hd
    obtain ⟨days, hdays, _⟩ := bind_eq_ok.mp h
    rw [actualDays, ha] at hdays
    exact ActualRange.readable_of_resolve hdays hd
  | milestone m =>
    obtain ⟨a, ha, hday, _⟩ := mem_actualDates_milestone.mp hd
    obtain ⟨day, hread, _⟩ := bind_eq_ok.mp h
    rw [ha, Option.bind_some, hday] at hread
    exact ActualRange.isSome_of_readDay hread

end Entry

namespace Document

variable {d : Document} {config : ChartConfig} {item part value : String}

/-- The fields of the project end as no field of an actual block does. -/
theorem projectField_ne {field : String} (hp : part ∈ ActualRange.fieldEnds)
    (hf : field ∈ "project.end (before project.start)" :: ProjectSection.required) :
    item ++ part ≠ field := by
  have hends : ∀ part ∈ ActualRange.fieldEnds,
      ∀ field ∈ "project.end (before project.start)" :: ProjectSection.required,
        ¬ part.toList <:+ field.toList := by decide
  intro heq
  refine hends part hp field hf ⟨item.toList, ?_⟩
  rw [← heq, String.toList_append]

/-- A text that is reported as no date of an actual block is one that an item is read by. -/
theorem unreadable_of_resolve (hp : part ∈ ActualRange.fieldEnds)
    (h : d.resolve config = .error (.invalidDate (item ++ part) value)) :
    ∃ e ∈ d.entries, (item ++ part, value) ∈ e.actualDates ∧ Day.read? value = none := by
  generalize herr : ScheduleError.invalidDate (item ++ part) value = err at h
  cases resolve_eq_error h with
  | calendar hf =>
    cases ProjectSection.calendar_eq_error hf with
    | missing _ => cases herr
    | unreadable hm _ =>
      obtain ⟨hfield, _⟩ := ScheduleError.invalidDate.inj herr
      exact absurd hfield (projectField_ne hp (.tail _ hm))
    | reversed _ =>
      obtain ⟨hfield, _⟩ := ScheduleError.invalidDate.inj herr
      exact absurd hfield (projectField_ne hp (.head _))
  | repeated _ _ => cases herr
  | looped _ _ _ => cases herr
  | plans _ _ ha hf =>
    obtain ⟨e, _, _, t, _, _, ⟨_, rfl⟩ | ⟨r, _, hf⟩⟩ := Entry.plans_eq_error ha hf
    · cases herr
    · -- a field of a plan is no field of an actual block
      cases PlanTable.resolveRange_eq_error hf with
      | unreadable _ _ =>
        obtain ⟨hfield, _⟩ := ScheduleError.invalidDate.inj herr
        exact absurd hfield.symm (planField_ne (getLast?_actual hp))
      | _ => cases herr
  | item _ _ _ _ he hf =>
    cases herr
    exact ⟨_, he, Entry.unreadable_of_resolve hf⟩

/-- An item of a document that resolves has no text but dates where dates are read. -/
theorem readable_of_resolve {s : Schedule} (h : d.resolve config = .ok s) {e : Entry}
    (he : e ∈ d.entries) {field : String} (hd : (field, value) ∈ e.actualDates) :
    (Day.read? value).isSome := by
  obtain ⟨table, hresolves⟩ := resolve_eq_ok_iff.mp h
  obtain ⟨i, _, hi⟩ := exists_of_forall₂ hresolves.items e he
  exact Entry.readable_of_resolve hi hd

end Document

end GanttChart
