import GanttChart.Proofs.Schedule.PlanPass
import GanttChart.Proofs.Schedule.References

/-! # The stages of resolving a document

A document resolves when every stage does, and each error comes from the first stage that fails. -/

namespace GanttChart

open Outcome

namespace Entry

theorem seenAgain?_eq_none_iff {seen : Std.HashSet String} {entries : List Entry} :
    seenAgain? seen entries = none ↔
      (entries.map Entry.name).Nodup ∧ ∀ e ∈ entries, e.name ∉ seen := by
  induction entries generalizing seen with
  | nil => simp [seenAgain?]
  | cons e rest ih =>
    unfold seenAgain?
    split
    · rename_i h
      have hs : e.name ∈ seen := Std.HashSet.contains_iff_mem.mp h
      simp [hs]
    · rename_i h
      have hs : e.name ∉ seen := fun hm => h (Std.HashSet.contains_iff_mem.mpr hm)
      rw [ih, List.map_cons, List.nodup_cons]
      simp only [Std.HashSet.mem_insert, beq_iff_eq, not_or, List.mem_cons, forall_eq_or_imp, hs,
        not_false_eq_true, true_and, List.mem_map, not_exists, not_and]
      constructor
      · rintro ⟨hn, hr⟩
        exact ⟨⟨fun x hx he => (hr x hx).1 he.symm, hn⟩, fun x hx => (hr x hx).2⟩
      · rintro ⟨⟨hne, hn⟩, hr⟩
        exact ⟨hn, fun x hx => ⟨fun he => hne x hx he.symm, hr x hx⟩⟩

theorem repeated?_eq_none_iff {entries : List Entry} :
    repeated? entries = none ↔ (entries.map Entry.name).Nodup := by
  rw [repeated?, seenAgain?_eq_none_iff]
  simp

end Entry

namespace Document

variable {d : Document} {config : ChartConfig} {s : Schedule} {err : ScheduleError}
  {table : PlanTable}

theorem names_entries (d : Document) : d.entries.map Entry.name =
    d.tasks.map TaskRecord.name ++ d.milestones.map MilestoneRecord.name := by
  simp [entries, Function.comp_def, Entry.name]

/-- What has been found at every stage when a document resolves. -/
structure ResolvesTo (d : Document) (config : ChartConfig) (s : Schedule) (table : PlanTable) :
    Prop where
  calendar : d.project.calendar = .ok s.calendar
  nodup : (d.entries.map Entry.name).Nodup
  acyclic : (Entry.graph d.entries).isCyclic = false
  plans : Entry.plans d.entries s.calendar config.dependencyGapDays = .ok table
  items : List.Forall₂
    (fun e i => e.resolve s.calendar (d.colors.palette config) table = .ok i) d.entries s.items
  paths : s.paths =
    (d.entries.flatMap fun e => table.paths e.name (d.colors.palette config).path).eraseDups
  groups : s.groups = d.scheduleGroups (d.entries.map Entry.name)

/-- Why a document does not resolve: the stages before the one that fails have succeeded. -/
inductive Fails (d : Document) (config : ChartConfig) : ScheduleError → Prop
  | calendar {err : ScheduleError} (h : d.project.calendar = .error err) : Fails d config err
  | repeated {calendar : WorkCalendar} {name : String} (hc : d.project.calendar = .ok calendar)
      (h : Entry.repeated? d.entries = some name) : Fails d config (.duplicateName name)
  | looped {calendar : WorkCalendar} (hc : d.project.calendar = .ok calendar)
      (hn : (d.entries.map Entry.name).Nodup) (h : (Entry.graph d.entries).isCyclic = true) :
      Fails d config (.dependencyLoop (Entry.graph d.entries).looped)
  | plans {calendar : WorkCalendar} {err : ScheduleError} (hc : d.project.calendar = .ok calendar)
      (hn : (d.entries.map Entry.name).Nodup) (ha : (Entry.graph d.entries).isCyclic = false)
      (h : Entry.plans d.entries calendar config.dependencyGapDays = .error err) :
      Fails d config err
  | item {calendar : WorkCalendar} {table : PlanTable} {e : Entry} {err : ScheduleError}
      (hc : d.project.calendar = .ok calendar) (hn : (d.entries.map Entry.name).Nodup)
      (ha : (Entry.graph d.entries).isCyclic = false)
      (hp : Entry.plans d.entries calendar config.dependencyGapDays = .ok table)
      (he : e ∈ d.entries)
      (h : e.resolve calendar (d.colors.palette config) table = .error err) : Fails d config err

theorem resolve_eq_ok_iff : d.resolve config = .ok s ↔ ∃ table, d.ResolvesTo config s table := by
  unfold resolve
  rw [bind_eq_ok]
  constructor
  · rintro ⟨calendar, hc, h⟩
    cases hr : Entry.repeated? d.entries with
    | some name => simp only [hr] at h; cases h
    | none =>
      simp only [hr] at h
      cases ha : (Entry.graph d.entries).isCyclic with
      | true => simp only [ha] at h; cases h
      | false =>
        simp only [ha] at h
        obtain ⟨table, hp, h⟩ := bind_eq_ok.mp h
        obtain ⟨items, hi, h⟩ := bind_eq_ok.mp h
        cases h
        exact ⟨table, hc, Entry.repeated?_eq_none_iff.mp hr, ha, hp, mapM_eq_ok_iff.mp hi, rfl, rfl⟩
  · rintro ⟨table, hc, hn, ha, hp, hi, hpaths, hgroups⟩
    refine ⟨s.calendar, hc, ?_⟩
    simp only [Entry.repeated?_eq_none_iff.mpr hn, ha]
    refine bind_eq_ok.mpr ⟨table, hp, bind_eq_ok.mpr ⟨s.items, mapM_eq_ok_iff.mpr hi, ?_⟩⟩
    rw [← hpaths, ← hgroups]
    rfl

theorem resolve_eq_error (h : d.resolve config = .error err) : d.Fails config err := by
  unfold resolve at h
  rcases bind_eq_error.mp h with h | ⟨calendar, hc, h⟩
  · exact .calendar h
  cases hr : Entry.repeated? d.entries with
  | some name =>
    simp only [hr] at h
    cases h
    exact .repeated hc hr
  | none =>
    simp only [hr] at h
    have hn := Entry.repeated?_eq_none_iff.mp hr
    cases ha : (Entry.graph d.entries).isCyclic with
    | true =>
      simp only [ha] at h
      cases h
      exact .looped hc hn ha
    | false =>
      simp only [ha] at h
      rcases bind_eq_error.mp h with h | ⟨table, hp, h⟩
      · exact .plans hc hn ha h
      rcases bind_eq_error.mp h with h | ⟨items, _, h⟩
      · obtain ⟨e, he, h⟩ := mapM_eq_error h
        exact .item hc hn ha hp he h
      · cases h

theorem resolve_of_isCyclic {calendar : WorkCalendar} (hc : d.project.calendar = .ok calendar)
    (hn : (d.entries.map Entry.name).Nodup) (ha : (Entry.graph d.entries).isCyclic = true) :
    d.resolve config = .error (.dependencyLoop (Entry.graph d.entries).looped) := by
  unfold resolve
  rw [hc]
  simp only [Entry.repeated?_eq_none_iff.mpr hn, ha]
  rfl

theorem resolve_of_plans_eq_error {calendar : WorkCalendar}
    (hc : d.project.calendar = .ok calendar) (hn : (d.entries.map Entry.name).Nodup)
    (ha : (Entry.graph d.entries).isCyclic = false)
    (h : Entry.plans d.entries calendar config.dependencyGapDays = .error err) :
    d.resolve config = .error err := by
  unfold resolve
  refine bind_eq_error.mpr (.inr ⟨calendar, hc, ?_⟩)
  simp only [Entry.repeated?_eq_none_iff.mpr hn, ha]
  exact bind_eq_error.mpr (.inl h)

end Document

/-! ## Small documents -/

/-- A task with nothing but a name and a plan. -/
def TaskRecord.spanning (name first last : String) : TaskRecord :=
  { TaskRecord.named name with plan := some (.range ⟨some first, some last, none⟩) }

/-- A document that plans its items in April, with Saturdays closed. -/
def Document.april (tasks : List TaskRecord) (milestones : List MilestoneRecord) : Document :=
  { Document.empty with
    project := ⟨some "2020/4/1", some "2020/4/30", some "2020/4/10", ["sat"], none⟩
    tasks := tasks
    milestones := milestones }

end GanttChart
