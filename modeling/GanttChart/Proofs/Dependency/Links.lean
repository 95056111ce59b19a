import GanttChart.DependencyGraph

/-! # Names and links

A graph is made from names and from links between them, one after the other. It has the names as
its nodes, and a node depends on another one exactly when there is a link between them; a link with
a name that is no node has no effect. -/

namespace GanttChart.DependencyGraph

variable {names : List String} {n : String}

theorem unseen_eq_self {seen : Std.HashSet String} (hn : names.Nodup)
    (hs : ∀ n ∈ names, n ∉ seen) : unseen seen names = names := by
  induction names generalizing seen with
  | nil => rfl
  | cons n rest ih =>
    obtain ⟨hnot, hrest⟩ := List.nodup_cons.mp hn
    have hc : ¬ seen.contains n = true :=
      fun h => hs n (by simp) (Std.HashSet.contains_iff_mem.mp h)
    rw [unseen, if_neg hc, ih hrest]
    intro m hm
    rw [Std.HashSet.mem_insert, not_or]
    exact ⟨fun he => hnot (beq_iff_eq.mp he ▸ hm), hs m (by simp [hm])⟩

theorem nodes_ofNames (hn : names.Nodup) : (ofNames names).nodes = names :=
  unseen_eq_self hn (by simp)

theorem mem_nodes_ofNames : n ∈ (ofNames names).nodes ↔ n ∈ names := by
  change n ∈ unseen ∅ names ↔ n ∈ names
  simp [mem_unseen]

theorem dependencies_ofNames (names : List String) (n : String) :
    (ofNames names).dependencies n = [] := by
  simp [ofNames, dependencies]

/-- Linking a dependency, or leaving it out when one of its names is no node. -/
theorem link_spec (g : DependencyGraph) (a b : String) :
    ((g.connect? a b).getD g).nodes = g.nodes ∧
      ∀ n d, d ∈ ((g.connect? a b).getD g).dependencies n ↔
        d ∈ g.dependencies n ∨ (n = b ∧ d = a ∧ a ∈ g.nodes ∧ b ∈ g.nodes) := by
  cases h : g.connect? a b with
  | none =>
    have hno := connect?_eq_none_iff.mp h
    refine ⟨rfl, fun n d => ?_⟩
    simp [hno]
  | some g' =>
    have hyes : a ∈ g.nodes ∧ b ∈ g.nodes := by
      refine Decidable.byContradiction fun hno => ?_
      rw [connect?_eq_none_iff.mpr hno] at h
      cases h
    refine ⟨nodes_connect? h, fun n d => ?_⟩
    simp [mem_dependencies_connect? h, hyes]

/-- Links what is first in each pair as a dependency of what is second. -/
def linkAll (g : DependencyGraph) (links : List (String × String)) : DependencyGraph :=
  links.foldl (fun g l => (g.connect? l.1 l.2).getD g) g

theorem linkAll_spec (links : List (String × String)) (g : DependencyGraph) :
    (g.linkAll links).nodes = g.nodes ∧
      ∀ n d, d ∈ (g.linkAll links).dependencies n ↔
        d ∈ g.dependencies n ∨ ((d, n) ∈ links ∧ d ∈ g.nodes ∧ n ∈ g.nodes) := by
  induction links generalizing g with
  | nil => exact ⟨rfl, by simp [linkAll]⟩
  | cons l rest ih =>
    obtain ⟨hn, hd⟩ := link_spec g l.1 l.2
    obtain ⟨ihn, ihd⟩ := ih ((g.connect? l.1 l.2).getD g)
    refine ⟨ihn.trans hn, fun n d => (ihd n d).trans ?_⟩
    rw [hd, hn, List.mem_cons]
    constructor
    · rintro ((h | ⟨rfl, rfl, ha, hb⟩) | ⟨hl, hnodes⟩)
      · exact .inl h
      · exact .inr ⟨.inl rfl, ha, hb⟩
      · exact .inr ⟨.inr hl, hnodes⟩
    · rintro (h | ⟨rfl | hl, ha, hb⟩)
      · exact .inl (.inl h)
      · exact .inl (.inr ⟨rfl, rfl, ha, hb⟩)
      · exact .inr ⟨hl, ha, hb⟩

/-- The graph of some names with links between them. -/
def linked (names : List String) (links : List (String × String)) : DependencyGraph :=
  (ofNames names).linkAll links

variable {links : List (String × String)} {dep item : String}

theorem mem_nodes_linked : n ∈ (linked names links).nodes ↔ n ∈ names := by
  rw [linked, (linkAll_spec links _).1, mem_nodes_ofNames]

theorem mem_dependencies_linked : dep ∈ (linked names links).dependencies item ↔
    (dep, item) ∈ links ∧ dep ∈ names ∧ item ∈ names := by
  simp [linked, linkAll_spec, dependencies_ofNames, mem_nodes_ofNames]

end GanttChart.DependencyGraph
