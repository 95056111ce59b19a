import GanttChart.Proofs.Schedule.Readiness
import GanttChart.Proofs.Schedule.Solved

/-! # Why a document does not resolve

Every error of resolving points at what is wrong in the document: at a bound of the project, at the
names or the references of the items, at the plan of one item or at its actual block. -/

namespace GanttChart

open Outcome

namespace ProjectSection

variable {p : ProjectSection} {err : ScheduleError}

/-- The fields that every project has to have, by the names that errors call them. -/
def required : List String := ["project.start", "project.end", "project.today"]

/-- Why a project has no calendar. -/
inductive Fault : ScheduleError → Prop
  | missing {field : String} (hf : field ∈ required) : Fault (.missingField field)
  | unreadable {field : String} (hf : field ∈ required) (value : String) :
      Fault (.invalidDate field value)
  | reversed (value : String) : Fault (.invalidDate "project.end (before project.start)" value)

theorem requireDay_eq_error {field : String} {raw : Option String}
    (hf : "project." ++ field ∈ required) (h : requireDay field raw = .error err) :
    Fault err := by
  cases raw with
  | none =>
    cases h
    exact .missing hf
  | some value =>
    simp only [requireDay] at h
    split at h
    · cases h
    · cases h
      exact .unreadable hf value

theorem calendar_eq_error (h : p.calendar = .error err) : Fault err := by
  unfold calendar at h
  rcases bind_eq_error.mp h with h | ⟨start, _, h⟩
  · exact requireDay_eq_error (by decide) h
  rcases bind_eq_error.mp h with h | ⟨finish, _, h⟩
  · exact requireDay_eq_error (by decide) h
  rcases bind_eq_error.mp h with h | ⟨today, _, h⟩
  · exact requireDay_eq_error (by decide) h
  split at h
  · cases h
    exact .reversed _
  · cases h

end ProjectSection

/-- Without loops the pass plans every item, so only the actual block of an item can be at fault. -/
theorem Entry.actualFault_of_resolve {entries : List Entry} {calendar : WorkCalendar} {gap : Int}
    {palette : Palette} {table : PlanTable} {e : Entry} {err : ScheduleError}
    (hc : (graph entries).isCyclic = false) (hp : plans entries calendar gap = .ok table)
    (he : e ∈ entries) (h : e.resolve calendar palette table = .error err) :
    ActualRange.Fault e.name err := by
  rcases Entry.resolve_eq_error h with ⟨hnone, _⟩ | hfault
  · obtain ⟨p, hplan⟩ := planned_of_plans hc hp e he
    rw [hnone] at hplan
    cases hplan
  · exact hfault

namespace Document

variable {d : Document} {config : ChartConfig} {err : ScheduleError}

/-- What is wrong with a document that fails with an error. -/
inductive Fault (d : Document) : ScheduleError → Prop
  | calendar {err : ScheduleError} (h : d.project.calendar = .error err) : Fault d err
  | repeated (name : String) : Fault d (.duplicateName name)
  | looped (h : (Entry.graph d.entries).isCyclic = true) :
      Fault d (.dependencyLoop (Entry.graph d.entries).looped)
  | unplanned {e : Entry} (he : e ∈ d.entries) (h : e.range? = none) :
      Fault d (.missingField (e.name ++ ".plan"))
  | plan {e : Entry} {r : PlanRange} {t : PlanTable} {err : ScheduleError} (he : e ∈ d.entries)
      (hr : e.range? = some r) (h : r.Fault t e.name err) : Fault d err
  | actual {e : Entry} {err : ScheduleError} (he : e ∈ d.entries)
      (h : ActualRange.Fault e.name err) : Fault d err

theorem fault_of_resolve (h : d.resolve config = .error err) : d.Fault err := by
  cases resolve_eq_error h with
  | calendar hf => exact .calendar hf
  | repeated _ _ => exact .repeated _
  | looped _ _ ha => exact .looped ha
  | plans _ _ ha hf =>
    obtain ⟨e, he, _, t, _, _, ⟨hnone, rfl⟩ | ⟨r, hr, hf⟩⟩ := Entry.plans_eq_error ha hf
    · exact .unplanned he hnone
    · exact .plan he hr (PlanTable.resolveRange_eq_error hf)
  | item _ _ ha hp he hf => exact .actual he (Entry.actualFault_of_resolve ha hp he hf)

end Document

/-! ## What cannot be read -/

/-- The days of plans are reported under fields that end as no other field does. -/
theorem planField_ne {item field : String} (h : field.toList.getLast? ≠ some 'n') :
    item ++ ".plan" ≠ field := by
  intro heq
  rw [← heq] at h
  simp at h

theorem getLast?_required :
    ∀ field ∈ ProjectSection.required, field.toList.getLast? ≠ some 'n' := by
  decide

theorem getLast?_actual {name part : String}
    (h : part ∈ [".actual", ".actual.start", ".actual.end", ".actual.completed"]) :
    (name ++ part).toList.getLast? ≠ some 'n' := by
  simp only [List.mem_cons, List.not_mem_nil, or_false] at h
  rcases h with rfl | rfl | rfl | rfl <;> simp

/-- A text that is reported as no date of a plan is one that some plan evaluates. -/
theorem Document.unreadable_of_invalidDate {d : Document} {config : ChartConfig}
    {item value : String}
    (h : d.resolve config = .error (.invalidDate (item ++ ".plan") value)) :
    ∃ e ∈ d.entries, ∃ r, e.range? = some r ∧ value ∈ r.evaluated ∧
      DateExpr.read? value = none := by
  generalize hfield : item ++ ".plan" = field at h
  generalize herr : ScheduleError.invalidDate field value = err at h
  cases fault_of_resolve h with
  | calendar hf =>
    cases ProjectSection.calendar_eq_error hf with
    | missing _ => cases herr
    | unreadable hm _ =>
      cases herr
      exact absurd hfield (planField_ne (getLast?_required _ hm))
    | reversed _ =>
      cases herr
      exact absurd hfield (planField_ne (by decide))
  | plan he hr hf =>
    cases hf with
    | unreadable hraw hnone => cases herr; exact ⟨_, he, _, hr, hraw, hnone⟩
    | _ => cases herr
  | actual _ hf =>
    cases hf with
    | date hpart _ =>
      cases herr
      exact absurd hfield (planField_ne (getLast?_actual hpart))
    | _ => cases herr
  | _ => cases herr

/-! ## What is missing -/

/-- What the plan of an item lacks, as the field that is reported. -/
inductive Entry.Lacks (e : Entry) : String → Prop
  | plan (h : e.range? = none) : Lacks e (e.name ++ ".plan")
  | start {r : PlanRange} (hr : e.range? = some r) (hs : r.start = none) :
      Lacks e (e.name ++ ".plan.start")
  | finish {r : PlanRange} (hr : e.range? = some r) (hp : r.period = none)
      (hf : r.finish = none) : Lacks e (e.name ++ ".plan.end")

namespace Entry

variable {e : Entry} {r : PlanRange} {field : String}

theorem lacks_iff_of_unplanned (h : e.range? = none) :
    e.Lacks field ↔ field = e.name ++ ".plan" := by
  constructor
  · intro hl
    cases hl with
    | plan _ => rfl
    | start hr _ => rw [h] at hr; cases hr
    | finish hr _ _ => rw [h] at hr; cases hr
  · rintro rfl
    exact .plan h

theorem lacks_iff_of_range (h : e.range? = some r) :
    e.Lacks field ↔ (r.start = none ∧ field = e.name ++ ".plan.start") ∨
      (r.period = none ∧ r.finish = none ∧ field = e.name ++ ".plan.end") := by
  constructor
  · intro hl
    cases hl with
    | plan hnone => rw [h] at hnone; cases hnone
    | start hr hs =>
      cases h.symm.trans hr
      exact .inl ⟨hs, rfl⟩
    | finish hr hp hf =>
      cases h.symm.trans hr
      exact .inr ⟨hp, hf, rfl⟩
  · rintro (⟨hs, rfl⟩ | ⟨hp, hf, rfl⟩)
    · exact .start h hs
    · exact .finish h hp hf

end Entry

namespace Document

variable {d : Document} {config : ChartConfig} {field : String} {e : Entry}

/-- A field that is reported as missing is one of the project or one that the plan of an item
lacks. -/
theorem lacks_of_missingField (h : d.resolve config = .error (.missingField field)) :
    field ∈ ProjectSection.required ∨ ∃ e ∈ d.entries, e.Lacks field := by
  generalize herr : ScheduleError.missingField field = err at h
  cases fault_of_resolve h with
  | calendar hf =>
    cases ProjectSection.calendar_eq_error hf with
    | missing hm => cases herr; exact .inl hm
    | _ => cases herr
  | unplanned he hnone => cases herr; exact .inr ⟨_, he, .plan hnone⟩
  | plan he hr hf =>
    cases hf with
    | noStart hs => cases herr; exact .inr ⟨_, he, .start hr hs⟩
    | noFinish hp hf => cases herr; exact .inr ⟨_, he, .finish hr hp hf⟩
    | _ => cases herr
  | actual _ hf => cases hf <;> cases herr
  | _ => cases herr

/-- No days solve a plan that lacks something. -/
theorem ResolvesTo.not_lacks {s : Schedule} {table : PlanTable}
    (h : d.ResolvesTo config s table) (he : e ∈ d.entries) : ¬ e.Lacks field := by
  intro hl
  obtain ⟨r, q, hrange, _, hsolved⟩ := h.solves.solved e he
  cases hl with
  | plan hnone =>
    rw [hrange] at hnone
    cases hnone
  | start hr' hs =>
    cases hrange.symm.trans hr'
    obtain ⟨raw, _, hraw, _⟩ := hsolved.start
    rw [hs] at hraw
    cases hraw
  | finish hr' hp hf =>
    cases hrange.symm.trans hr'
    have hfinish := hsolved.finish
    rw [hp] at hfinish
    obtain ⟨raw, _, hraw, _⟩ := hfinish
    rw [hf] at hraw
    cases hraw

end Document

end GanttChart
