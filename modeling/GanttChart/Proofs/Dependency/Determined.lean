import GanttChart.Proofs.Dependency.Links
import GanttChart.Proofs.Dependency.Cycle

/-! # What determines a graph

The dependencies of a node are listed in the order of the nodes. So the nodes and the relation
between them determine a graph made by linking, and with it the order of resolution; the list of
looped nodes needs no more than which nodes are on loops. -/

namespace GanttChart.DependencyGraph

open Relation

variable {g g' : DependencyGraph} {a b : String}

/-- The dependencies of each node have the order of the nodes. -/
def Ordered (g : DependencyGraph) : Prop :=
  ∀ n, g.dependencies n = g.nodes.filter (g.dependencies n).contains

theorem ordered_ofNames (names : List String) : (ofNames names).Ordered := by
  intro n
  simp [dependencies_ofNames]

theorem filter_contains_filter {α : Type} [BEq α] [LawfulBEq α] (p : α → Bool) (l : List α) :
    l.filter (l.filter p).contains = l.filter p := by
  refine List.filter_congr fun x hx => ?_
  rw [Bool.eq_iff_iff, List.contains_iff_mem, List.mem_filter]
  exact and_iff_right hx

theorem Ordered.connect? (h : g.Ordered) (hg : g.connect? a b = some g') : g'.Ordered := by
  simp only [DependencyGraph.connect?] at hg
  split at hg
  · cases hg
    intro n
    simp only [dependencies, Std.HashMap.getD_insert]
    split
    · rw [filter_contains_filter]
    · exact h n
  · cases hg

theorem Ordered.linkAll (links : List (String × String)) (h : g.Ordered) :
    (g.linkAll links).Ordered := by
  induction links generalizing g with
  | nil => exact h
  | cons l rest ih =>
    rw [DependencyGraph.linkAll, List.foldl_cons]
    refine ih ?_
    cases hg : g.connect? l.1 l.2 with
    | none => simpa [hg] using h
    | some g' => simpa [hg] using h.connect? hg

/-- The relation between the nodes determines the lists of dependencies. -/
theorem Ordered.dependencies_eq (h : g.Ordered) (h' : g'.Ordered) (hn : g.nodes = g'.nodes)
    (hd : g.DependsOn = g'.DependsOn) : g.dependencies = g'.dependencies := by
  funext n
  rw [h n, h' n, hn]
  refine List.filter_congr fun x _ => ?_
  rw [Bool.eq_iff_iff, List.contains_iff_mem, List.contains_iff_mem]
  exact iff_of_eq (congrFun (congrFun hd n) x)

theorem resolutionOrder_congr (hn : g.nodes = g'.nodes) (hd : g.dependencies = g'.dependencies) :
    g.resolutionOrder = g'.resolutionOrder := by
  have hchain : g.chainTo = g'.chainTo := by
    funext name
    rw [chainTo, chainTo, hn, hd]
  simp only [resolutionOrder, independents, chains, leaves, hasDependents, hn, hd, hchain]

theorem isCyclic_congr (h : ∀ n, TransGen g.DependsOn n n ↔ TransGen g'.DependsOn n n) :
    g.isCyclic = g'.isCyclic := by
  rw [Bool.eq_iff_iff, isCyclic_iff, isCyclic_iff]
  exact exists_congr h

theorem looped_congr (hn : g.nodes = g'.nodes)
    (h : ∀ n, TransGen g.DependsOn n n ↔ TransGen g'.DependsOn n n) : g.looped = g'.looped := by
  have hself (g : DependencyGraph) : g.looped = g.nodes.filter g.looped.contains := by
    rw [looped, filter_contains_filter]
  rw [hself g, hself g', hn]
  refine List.filter_congr fun x _ => ?_
  rw [Bool.eq_iff_iff, List.contains_iff_mem, List.contains_iff_mem, mem_looped, mem_looped]
  exact h x

end GanttChart.DependencyGraph
