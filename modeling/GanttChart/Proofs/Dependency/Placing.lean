import GanttChart.Proofs.Dependency.Links
import GanttChart.Proofs.Dependency.Order
import Mathlib

/-! # First places

In the order of resolution of a graph without loops every name has a place, and the first place of a
name comes before the first place of all that was linked to depend on it, however names and links
were given. -/

namespace GanttChart.DependencyGraph

open Relation

variable {g : DependencyGraph} {deps : String → List String} {order names c : List String}
  {links : List (String × String)} {n x d : String}

/-- The first place of a name comes after the first place of each name that it depends on. -/
theorem Grounded.idxOf_lt (h : Grounded deps order) (hx : x ∈ order) (hd : d ∈ deps x) :
    order.idxOf d < order.idxOf x := by
  obtain ⟨before, after, rfl, hfirst⟩ := List.eq_append_cons_of_mem hx
  have hbefore : d ∈ before := h before x after rfl d hd
  rw [List.idxOf_append_of_mem hbefore, List.idxOf_append_of_notMem hfirst]
  have hlt : before.idxOf d < before.length := List.idxOf_lt_length_of_mem hbefore
  omega

theorem hasDependents_eq_false_iff :
    g.hasDependents n = false ↔ ∀ m, ¬ g.DependsOn m n := by
  rw [← Bool.not_eq_true, hasDependents_iff, not_exists]

theorem mem_independents :
    n ∈ g.independents ↔ n ∈ g.nodes ∧ (∀ d, ¬ g.DependsOn n d) ∧ ∀ m, ¬ g.DependsOn m n := by
  simp only [independents, List.mem_filter, Bool.and_eq_true, List.isEmpty_iff, Bool.not_eq_true',
    hasDependents_eq_false_iff, List.eq_nil_iff_forall_not_mem, DependsOn]

theorem mem_leaves :
    n ∈ g.leaves ↔ n ∈ g.nodes ∧ (∀ m, ¬ g.DependsOn m n) ∧ ∃ d, g.DependsOn n d := by
  simp only [leaves, List.mem_filter, Bool.and_eq_true, Bool.not_eq_true',
    hasDependents_eq_false_iff, List.isEmpty_eq_false_iff_exists_mem, DependsOn]

/-! ## Chains and independent names -/

theorem ne_nil_of_mem_chains (hc : c ∈ g.chains) : c ≠ [] := by
  obtain ⟨leaf, hleaf, rfl⟩ := List.mem_map.mp hc
  exact List.ne_nil_of_mem ((mem_chainTo (mem_leaves.mp hleaf).1).mpr .refl)

/-- A leaf depends on something and something depends on every other node of its chain, while
neither holds of an independent name. -/
theorem not_mem_of_mem_independents (hn : n ∈ g.independents) (hc : c ∈ g.chains) : n ∉ c := by
  obtain ⟨leaf, hleaf, rfl⟩ := List.mem_map.mp hc
  obtain ⟨hmem, _, d, hd⟩ := mem_leaves.mp hleaf
  obtain ⟨_, hnone, hfree⟩ := mem_independents.mp hn
  intro hchain
  rcases ReflTransGen.cases_tail ((mem_chainTo hmem).mp hchain) with rfl | ⟨m, _, hm⟩
  · exact hnone d hd
  · exact hfree m hm

theorem mem_nodes_of_mem_resolutionOrder (hn : n ∈ g.resolutionOrder) : n ∈ g.nodes := by
  simp only [resolutionOrder, List.mem_append, List.mem_flatten, chains, List.mem_map] at hn
  rcases hn with hn | ⟨_, ⟨leaf, hleaf, rfl⟩, hn⟩
  · exact (mem_independents.mp hn).1
  · have hmem := (mem_leaves.mp hleaf).1
    exact mem_of_reaches hmem ((mem_chainTo hmem).mp hn)

/-- Where links between names make no loops, the order of resolution has exactly the names, and the
first place of a name comes before that of each name linked to depend on it. A name without links is
in no chain, and no chain is empty. -/
theorem resolutionOrder_of_links (hac : ∀ n, ¬ TransGen (linked names links).DependsOn n n) :
    (∀ n, n ∈ (linked names links).resolutionOrder ↔ n ∈ names) ∧
    (∀ dep item, (dep, item) ∈ links → dep ∈ names → item ∈ names →
      (linked names links).resolutionOrder.idxOf dep <
        (linked names links).resolutionOrder.idxOf item) ∧
    ∀ c ∈ (linked names links).chains, c ≠ [] ∧ ∀ n ∈ (linked names links).independents, n ∉ c := by
  have hcyclic := not_isCyclic_iff.mpr hac
  have hall : ∀ n, n ∈ (linked names links).resolutionOrder ↔ n ∈ names := by
    intro n
    constructor
    · intro hn
      exact mem_nodes_linked.mp (mem_nodes_of_mem_resolutionOrder hn)
    · intro hn
      exact mem_resolutionOrder hcyclic (mem_nodes_linked.mpr hn)
  refine ⟨hall, fun dep item hl hdep hitem => ?_, fun c hc => ⟨ne_nil_of_mem_chains hc, ?_⟩⟩
  · exact (grounded_resolutionOrder hcyclic).idxOf_lt ((hall item).mpr hitem)
      (mem_dependencies_linked.mpr ⟨hl, hdep, hitem⟩)
  · exact fun n hn => not_mem_of_mem_independents hn hc

def siteNames : List String := ["roof", "wall", "garden", "floor", "wall", "porch"]

/-- Links of a site; there is no attic. -/
def siteLinks : List (String × String) :=
  [("wall", "roof"), ("floor", "wall"), ("attic", "roof"), ("floor", "porch")]

/-- The floor is in the chains of the roof and of the porch, and the garden in no chain. -/
theorem site_placed :
    (∀ n, ¬ TransGen (linked siteNames siteLinks).DependsOn n n) ∧
    (linked siteNames siteLinks).resolutionOrder =
      ["garden", "floor", "wall", "roof", "floor", "porch"] ∧
    (∀ n, n ∈ (linked siteNames siteLinks).resolutionOrder ↔ n ∈ siteNames) ∧
    (linked siteNames siteLinks).resolutionOrder.idxOf "floor" <
      (linked siteNames siteLinks).resolutionOrder.idxOf "porch" ∧
    ∀ c ∈ (linked siteNames siteLinks).chains, c ≠ [] ∧ "garden" ∉ c := by
  have hac : ∀ n, ¬ TransGen (linked siteNames siteLinks).DependsOn n n :=
    not_isCyclic_iff.mp (by cbv)
  have horder : (linked siteNames siteLinks).resolutionOrder =
      ["garden", "floor", "wall", "roof", "floor", "porch"] := by cbv
  have hgarden : (linked siteNames siteLinks).independents = ["garden"] := by cbv
  obtain ⟨hall, hplaces, hchains⟩ := resolutionOrder_of_links hac
  refine ⟨hac, horder, hall, hplaces _ _ ?_ ?_ ?_, fun c hc => ⟨(hchains c hc).1, ?_⟩⟩
  · decide
  · decide
  · decide
  · exact (hchains c hc).2 "garden" (by simp [hgarden])

end GanttChart.DependencyGraph
