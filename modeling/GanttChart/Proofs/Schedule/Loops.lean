import GanttChart.Proofs.Schedule.Faults
import Mathlib

/-! # Loops of references

Resolving a document reports a loop exactly when the references between its items have one, of any
length, and names the items on loops, in the order of the document. -/

namespace GanttChart

open Relation

namespace Document

variable {d : Document} {config : ChartConfig} {calendar : WorkCalendar}

/-- Only the stage that looks for loops reports one. -/
theorem isCyclic_of_dependencyLoop {names : List String} (hc : d.project.calendar = .ok calendar)
    (h : d.resolve config = .error (.dependencyLoop names)) :
    (Entry.graph d.entries).isCyclic = true ∧ names = (Entry.graph d.entries).looped := by
  generalize herr : ScheduleError.dependencyLoop names = err at h
  cases fault_of_resolve h with
  | calendar h => rw [hc] at h; cases h
  | repeated _ => cases herr
  | looped ha => cases herr; exact ⟨ha, rfl⟩
  | unplanned _ _ => cases herr
  | plan _ _ hf => cases hf <;> cases herr
  | actual _ hf => cases hf <;> cases herr

/-- Where the calendar and the names are in order, resolving reports a loop exactly when some item
refers back to itself through any number of references, and reports just those items. -/
theorem resolve_dependencyLoop_iff (hc : d.project.calendar = .ok calendar)
    (hn : (d.entries.map Entry.name).Nodup) :
    ((∃ names, d.resolve config = .error (.dependencyLoop names)) ↔
      ∃ n, TransGen (Entry.Refers d.entries) n n) ∧
    ∀ names, d.resolve config = .error (.dependencyLoop names) →
      names.Sublist (d.tasks.map TaskRecord.name ++ d.milestones.map MilestoneRecord.name) ∧
      names.Nodup ∧ ∀ n, n ∈ names ↔ TransGen (Entry.Refers d.entries) n n := by
  have hcyclic : (Entry.graph d.entries).isCyclic = true ↔
      ∃ n, TransGen (Entry.Refers d.entries) n n := by
    rw [DependencyGraph.isCyclic_iff, Entry.dependsOn_graph]
  refine ⟨⟨?_, ?_⟩, ?_⟩
  · rintro ⟨names, h⟩
    exact hcyclic.mp (isCyclic_of_dependencyLoop hc h).1
  · intro h
    exact ⟨_, resolve_of_isCyclic hc hn (hcyclic.mpr h)⟩
  · intro names h
    obtain ⟨_, rfl⟩ := isCyclic_of_dependencyLoop hc h
    have hsub := DependencyGraph.looped_sublist (Entry.graph d.entries)
    rw [Entry.nodes_graph hn] at hsub
    refine ⟨d.names_entries ▸ hsub, hsub.nodup hn, fun n => ?_⟩
    rw [DependencyGraph.mem_looped, Entry.dependsOn_graph]

/-- A document with a loop of two items, an item that waits for the loop, and one apart. -/
def entangled : Document :=
  .april
    [.spanning "paint" "build's end" "project's end", .spanning "build" "2020/4/2" "paint's start",
      .spanning "sell" "paint's end" "project's end", .spanning "plan" "2020/4/2" "2020/4/3"]
    []

/-- Just the two items of the loop are reported, and they are the ones that refer back to
themselves. -/
theorem loop_of_entangled :
    entangled.resolve .standard = .error (.dependencyLoop ["paint", "build"]) ∧
      ∀ n, n ∈ ["paint", "build"] ↔ TransGen (Entry.Refers entangled.entries) n n := by
  have hc : entangled.project.calendar.isOk = true := by cbv
  have hn : (entangled.entries.map Entry.name).Nodup := by decide
  have hr : entangled.resolve .standard = .error (.dependencyLoop ["paint", "build"]) := by cbv
  obtain ⟨calendar, hc⟩ := Outcome.exists_of_isOk hc
  exact ⟨hr, ((resolve_dependencyLoop_iff hc hn).2 _ hr).2.2⟩

end Document

end GanttChart
