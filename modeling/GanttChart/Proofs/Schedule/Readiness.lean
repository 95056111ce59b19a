import GanttChart.Proofs.Schedule.PlanPass
import GanttChart.Proofs.Schedule.References

/-! # Every item is ready when its turn comes

Without loops the plan pass comes to each item, and when it does, the items that the item refers to
have their plans. So a pass that succeeds has planned all items, and one that fails does so for
another reason than the order of items. -/

namespace GanttChart.Entry

open Outcome

variable {entries : List Entry} {calendar : WorkCalendar} {gap : Int} {t : PlanTable}
  {item : String} {before after : List String} {err : ScheduleError} {a : Assignment}

/-- What an item refers to has been planned by the steps before it. -/
theorem planned_of_refers (hc : (graph entries).isCyclic = false)
    (ho : (graph entries).resolutionOrder = before ++ item :: after)
    (ht : before.foldlM (plan entries calendar gap) .empty = .ok t) :
    ∀ b, Refers entries item b → ∃ p, t.get? b = some p := by
  intro b hb
  have hdep : b ∈ (graph entries).dependencies item := by
    rw [← dependsOn_graph] at hb
    exact hb
  have hbefore := DependencyGraph.grounded_resolutionOrder hc before item after ho b hdep
  exact planned_of_foldlM ht b hbefore hb.2

theorem planned_of_plans (hc : (graph entries).isCyclic = false)
    (h : plans entries calendar gap = .ok t) : ∀ e ∈ entries, ∃ p, t.get? e.name = some p := by
  intro e he
  have hm : e.name ∈ entries.map Entry.name := List.mem_map_of_mem he
  exact planned_of_foldlM h e.name
    (DependencyGraph.mem_resolutionOrder hc (mem_nodes_graph.mpr hm)) hm

/-- A pass that fails does so at an item whose references to items are all planned. -/
theorem plans_eq_error (hc : (graph entries).isCyclic = false)
    (h : plans entries calendar gap = .error err) :
    ∃ e ∈ entries, ∃ (before : List String) (t : PlanTable),
      before.foldlM (plan entries calendar gap) .empty = .ok t ∧
      (∀ b, Refers entries e.name b → ∃ p, t.get? b = some p) ∧
      ((e.range? = none ∧ err = .missingField (e.name ++ ".plan")) ∨
        ∃ r, e.range? = some r ∧ t.resolveRange calendar gap e.name r = .error err) := by
  obtain ⟨before, item, after, t, ho, ht, hstep⟩ := foldlM_eq_error h
  obtain ⟨e, he, rfl, hfault⟩ := plan_eq_error hstep
  exact ⟨e, he, before, t, ht, planned_of_refers hc ho ht, hfault⟩

theorem refers_of_reference {e : Entry} {r : PlanRange} {name : String} (he : e ∈ entries)
    (hr : e.range? = some r) (hn : name ∈ r.references) (hm : name ∈ entries.map Entry.name) :
    Refers entries e.name name :=
  refers_iff.mpr ⟨⟨e, he, rfl, mem_references.mpr ⟨r, hr, hn⟩⟩, hm⟩

/-- Without loops, the plan pass succeeds whenever the plan equations can be solved. -/
theorem exists_plans_of_solves (hc : (graph entries).isCyclic = false)
    (ha : a.Solves calendar gap entries) : ∃ t, plans entries calendar gap = .ok t := by
  cases h : plans entries calendar gap with
  | ok t => exact ⟨t, rfl⟩
  | error err =>
    exfalso
    obtain ⟨e, he, before, t, ht, hready, hfault⟩ := plans_eq_error hc h
    obtain ⟨r, q, hr, _, hsolved⟩ := ha.solved e he
    have hwithin := within_of_foldlM ha ht
    -- the days that the solution gives to the references are those of the table
    have htable : r.Solved calendar gap t.days q := hsolved.transfer fun name hn s hs => by
      have hm : name ∈ entries.map Entry.name := (ha.named name).mp (by simp [hs])
      obtain ⟨p, hp⟩ := hready name (refers_of_reference he hr hn hm)
      rw [PlanTable.days_of_get? hp, ← hwithin name p hp, hs]
    have hok : t.resolveRange calendar gap e.name r =
        .ok ⟨q.start, q.finish, r.startOrigin, r.finishOrigin⟩ :=
      PlanTable.resolveRange_eq_ok_iff.mpr ⟨htable, rfl, rfl⟩
    rcases hfault with ⟨hnone, _⟩ | ⟨r', hr', herr⟩
    · rw [hr] at hnone
      cases hnone
    · rw [hr] at hr'
      cases hr'
      rw [hok] at herr
      cases herr

end GanttChart.Entry
