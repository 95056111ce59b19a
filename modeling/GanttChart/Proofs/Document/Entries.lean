import GanttChart.Proofs.Document.Coerced
import GanttChart.Proofs.Schedule.Faults

/-! # The items of a coerced document

Coercing a document changes no name and no text of a plan, only the periods. So the items of a
coerced document evaluate the same texts as before and lack the same parts of their plans. -/

namespace GanttChart

variable {hours : Float} {config : ChartConfig} {r r' : PlanRange} {plan plan' : PlanSpec}
  {e e' : Entry} {d d' : Document} {field : String}

/-- The range of a milestone, its parts completed one by one. -/
theorem PlanRange.forMilestone_eq (r : PlanRange) :
    r.forMilestone = ⟨r.start.or r.finish,
      if r.period.isNone then r.finish.or r.start else r.finish, r.period⟩ := by
  obtain ⟨start, finish, period⟩ := r
  cases start <;> cases finish <;> cases period <;> rfl

namespace PlanRange.CoercedTo

theorem isSome_period (h : r.CoercedTo hours r') : r'.period.isSome = r.period.isSome := by
  have hperiod := h.period
  generalize r.period = period, r'.period = period' at hperiod
  cases hperiod with
  | none => rfl
  | some _ => rfl

theorem period_eq_none_iff (h : r.CoercedTo hours r') : r'.period = none ↔ r.period = none := by
  rw [← Option.not_isSome_iff_eq_none, h.isSome_period, Option.not_isSome_iff_eq_none]

theorem evaluated_eq (h : r.CoercedTo hours r') : r'.evaluated = r.evaluated := by
  rw [evaluated, evaluated, h.start, h.finish, h.isSome_period]

theorem forMilestone (h : r.CoercedTo hours r') :
    r.forMilestone.CoercedTo hours r'.forMilestone := by
  have hnone : r'.period.isNone = r.period.isNone := by
    rw [← Option.not_isSome, ← Option.not_isSome, h.isSome_period]
  rw [forMilestone_eq, forMilestone_eq, h.start, h.finish, hnone]
  exact ⟨rfl, rfl, h.period⟩

end PlanRange.CoercedTo

theorem PlanSpec.CoercedTo.toRange (h : plan.CoercedTo hours plan') :
    plan.toRange.CoercedTo hours plan'.toRange := by
  cases h with
  | point day => exact ⟨rfl, rfl, .none⟩
  | range h => exact h

/-- An item keeps its name, and its range becomes what ranges become. -/
structure Entry.CoercedTo (hours : Float) (e e' : Entry) : Prop where
  name : e'.name = e.name
  range : Option.Rel (PlanRange.CoercedTo hours) e.range? e'.range?

theorem TaskRecord.CoercedTo.entry {t t' : TaskRecord} (h : t.CoercedTo hours t') :
    (Entry.task t).CoercedTo hours (.task t') := by
  refine ⟨h.name, ?_⟩
  have hplan := h.plan
  simp only [Entry.range?]
  generalize t.plan = plan, t'.plan = plan' at hplan
  cases hplan with
  | none => exact .none
  | some hplan => exact .some hplan.toRange

theorem MilestoneRecord.CoercedTo.entry {m m' : MilestoneRecord} (h : m.CoercedTo hours m') :
    (Entry.milestone m).CoercedTo hours (.milestone m') := by
  refine ⟨h.name, ?_⟩
  have hplan := h.plan
  simp only [Entry.range?]
  generalize m.plan = plan, m'.plan = plan' at hplan
  cases hplan with
  | none => exact .none
  | some hplan => exact .some hplan.toRange.forMilestone

namespace Entry.CoercedTo

/-- Either neither item has a plan, or both have and one range becomes the other. -/
theorem range_cases (h : e.CoercedTo hours e') : (e.range? = none ∧ e'.range? = none) ∨
    ∃ r r', e.range? = some r ∧ e'.range? = some r' ∧ r.CoercedTo hours r' := by
  have hrange := h.range
  generalize e.range? = range, e'.range? = range' at hrange
  cases hrange with
  | none => exact .inl ⟨rfl, rfl⟩
  | some hr => exact .inr ⟨_, _, rfl, rfl, hr⟩

theorem lacks_iff (h : e.CoercedTo hours e') : e'.Lacks field ↔ e.Lacks field := by
  rcases h.range_cases with ⟨hnone, hnone'⟩ | ⟨r, r', hr, hr', hrel⟩
  · rw [lacks_iff_of_unplanned hnone, lacks_iff_of_unplanned hnone', h.name]
  · rw [lacks_iff_of_range hr, lacks_iff_of_range hr', hrel.start, hrel.finish,
      hrel.period_eq_none_iff, h.name]

end Entry.CoercedTo

namespace Document.CoercedTo

theorem entries (h : d.CoercedTo config d') :
    List.Forall₂ (Entry.CoercedTo config.hoursPerDay) d.entries d'.entries := by
  refine List.rel_append ?_ ?_
  · rw [List.forall₂_map_left_iff, List.forall₂_map_right_iff]
    exact h.tasks.imp fun _ _ ht => ht.entry
  · rw [List.forall₂_map_left_iff, List.forall₂_map_right_iff]
    exact h.milestones.imp fun _ _ hm => hm.entry

theorem map_name_entries (h : d.CoercedTo config d') :
    d'.entries.map Entry.name = d.entries.map Entry.name := by
  rw [eq_comm, ← List.forall₂_eq_eq_eq, List.forall₂_map_left_iff, List.forall₂_map_right_iff]
  exact h.entries.imp fun _ _ he => he.name.symm

theorem exists_entry (h : d.CoercedTo config d') (he : e' ∈ d'.entries) :
    ∃ e ∈ d.entries, e.CoercedTo config.hoursPerDay e' :=
  Outcome.exists_of_forall₂ h.entries.flip e' he

theorem exists_range (h : d.CoercedTo config d') (he : e' ∈ d'.entries)
    (hr : e'.range? = some r') :
    ∃ e ∈ d.entries, ∃ r, e.range? = some r ∧ r.CoercedTo config.hoursPerDay r' := by
  obtain ⟨e, hmem, hrel⟩ := h.exists_entry he
  rcases hrel.range_cases with ⟨_, hnone⟩ | ⟨r, r'', hrange, hrange', hcoerced⟩
  · rw [hr] at hnone
    cases hnone
  · cases hr.symm.trans hrange'
    exact ⟨e, hmem, r, hrange, hcoerced⟩

end Document.CoercedTo

end GanttChart
