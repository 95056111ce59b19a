import GanttChart.Proofs.Schedule.Items
import Mathlib

/-! # A resolved schedule solves the plans

The days that a resolved schedule shows are the one solution of the plan equations of its items. -/

namespace GanttChart.Document

variable {d : Document} {config : ChartConfig} {s : Schedule} {table : PlanTable}

namespace ResolvesTo

theorem planned (h : d.ResolvesTo config s table) :
    ∀ e ∈ d.entries, ∃ p, table.get? e.name = some p := by
  intro e he
  obtain ⟨i, _, hi⟩ := Outcome.exists_of_forall₂ h.items e he
  exact Entry.planned_of_resolve hi

theorem sound (h : d.ResolvesTo config s table) :
    table.Sound s.calendar config.dependencyGapDays d.entries :=
  Entry.sound_of_foldlM h.plans

theorem solves (h : d.ResolvesTo config s table) :
    table.days.Solves s.calendar config.dependencyGapDays d.entries :=
  Entry.solves_of_sound h.nodup h.sound h.planned

theorem eq_days (h : d.ResolvesTo config s table) {a : Assignment}
    (ha : a.Solves s.calendar config.dependencyGapDays d.entries) : a = table.days :=
  Entry.eq_days_of_within ha (Entry.within_of_foldlM ha h.plans) h.sound h.planned

theorem shownAs (h : d.ResolvesTo config s table) :
    List.Forall₂ (Entry.ShownAs table.days) d.entries s.items :=
  h.items.imp fun _ _ => Entry.shownAs_of_resolve

theorem names_items (h : d.ResolvesTo config s table) :
    s.items.map ScheduleItem.name = d.entries.map Entry.name := by
  rw [eq_comm, ← List.forall₂_eq_eq_eq, List.forall₂_map_left_iff, List.forall₂_map_right_iff]
  exact h.shownAs.imp fun _ _ hi => hi.name_eq.symm

end ResolvesTo

/-- A resolved schedule has the tasks of the document and then its milestones, each under its name
and no name twice. The days it shows are the only ones that solve the plans of all items at
once. -/
theorem resolve_solves_plans (h : d.resolve config = .ok s) :
    d.project.calendar = .ok s.calendar ∧ (s.items.map ScheduleItem.name).Nodup ∧
    ∃ a : Assignment, a.Solves s.calendar config.dependencyGapDays d.entries ∧
      List.Forall₂ (Entry.ShownAs a)
        (d.tasks.map Entry.task ++ d.milestones.map Entry.milestone) s.items ∧
      ∀ b : Assignment, b.Solves s.calendar config.dependencyGapDays d.entries → b = a := by
  obtain ⟨table, hr⟩ := resolve_eq_ok_iff.mp h
  refine ⟨hr.calendar, hr.names_items ▸ hr.nodup, table.days, hr.solves, hr.shownAs, ?_⟩
  intro b hb
  exact hr.eq_days hb

/-- A document in which every item waits for the one listed after it. -/
def relay : Document :=
  .april
    [.spanning "paint" "build's end" "project's end", .spanning "build" "plan's end" "2020/4/20",
      .spanning "plan" "2020/4/2" "2020/4/6"]
    [{ MilestoneRecord.named "handover" with plan := some (.point "paint's end") }]

theorem exists_resolve_relay : ∃ s, relay.resolve .standard = .ok s := by
  apply Outcome.exists_of_isOk
  cbv

/-- The plans of items that wait for each other have one solution. -/
theorem resolve_relay_solves : ∃ s, relay.resolve .standard = .ok s ∧
    ∃ a : Assignment,
      a.Solves s.calendar ChartConfig.standard.dependencyGapDays relay.entries ∧
      List.Forall₂ (Entry.ShownAs a) relay.entries s.items ∧
      ∀ b : Assignment,
        b.Solves s.calendar ChartConfig.standard.dependencyGapDays relay.entries → b = a := by
  obtain ⟨s, hs⟩ := exists_resolve_relay
  obtain ⟨_, _, a, ha⟩ := resolve_solves_plans hs
  exact ⟨s, hs, a, ha⟩

end GanttChart.Document
