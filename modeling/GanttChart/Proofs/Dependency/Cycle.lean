import GanttChart.Proofs.Dependency.Walk

/-! # Loops

Whether there are loops is found by asking each node whether it comes back to itself, and the nodes
on loops are found as the components that have several nodes or depend on themselves. Both agree
with the dependencies: a node is on a loop exactly when it depends on itself, directly or through
others. -/

namespace GanttChart.DependencyGraph

open Relation

variable {g : DependencyGraph} {a b x name : String}

theorem DependsOn.mem_left (h : g.DependsOn a b) : a ∈ g.nodes := (g.closed a b h).1

theorem DependsOn.mem_right (h : g.DependsOn a b) : b ∈ g.nodes := (g.closed a b h).2

theorem mem_of_transGen (h : TransGen g.DependsOn a b) : a ∈ g.nodes := by
  obtain ⟨c, hc, _⟩ := TransGen.head'_iff.mp h
  exact hc.mem_left

theorem mem_of_reaches (ha : a ∈ g.nodes) (h : ReflTransGen g.DependsOn a b) : b ∈ g.nodes := by
  rcases ReflTransGen.cases_tail h with rfl | ⟨c, _, hc⟩
  · exact ha
  · exact hc.mem_right

theorem isLooped_iff : g.isLooped name = true ↔ TransGen g.DependsOn name name := by
  simp only [isLooped, List.any_eq_true, List.contains_iff_mem, TransGen.head'_iff]
  constructor
  · rintro ⟨d, hd, hc⟩
    exact ⟨d, hd, (mem_chainTo (DependsOn.mem_right hd)).mp hc⟩
  · rintro ⟨d, hd, hr⟩
    exact ⟨d, hd, (mem_chainTo (DependsOn.mem_right hd)).mpr hr⟩

theorem isCyclic_iff : g.isCyclic = true ↔ ∃ n, TransGen g.DependsOn n n := by
  simp only [isCyclic, List.any_eq_true, isLooped_iff]
  constructor
  · rintro ⟨n, _, h⟩
    exact ⟨n, h⟩
  · rintro ⟨n, h⟩
    exact ⟨n, mem_of_transGen h, h⟩

theorem not_isCyclic_iff : g.isCyclic = false ↔ ∀ n, ¬ TransGen g.DependsOn n n := by
  rw [← Bool.not_eq_true, isCyclic_iff, not_exists]

/-! ## Components -/

theorem mem_component (hn : name ∈ g.nodes) :
    x ∈ g.component name ↔
      ReflTransGen g.DependsOn name x ∧ ReflTransGen g.DependsOn x name := by
  simp only [component, List.mem_filter, List.contains_iff_mem, mem_chainTo hn]
  constructor
  · rintro ⟨h, hb⟩
    exact ⟨h, (mem_chainTo (mem_of_reaches hn h)).mp hb⟩
  · rintro ⟨h, hb⟩
    exact ⟨h, (mem_chainTo (mem_of_reaches hn h)).mpr hb⟩

theorem nodup_component (hn : name ∈ g.nodes) : (g.component name).Nodup :=
  (nodup_chainTo hn).filter _

theorem foldl_addComponent (g : DependencyGraph) :
    ∀ (names : List String) (held : List (List String)), (∀ n ∈ names, n ∈ g.nodes) →
      (∀ c ∈ names.foldl g.addComponent held, c ∈ held ∨ ∃ n ∈ names, c = g.component n) ∧
      (∀ c ∈ held, c ∈ names.foldl g.addComponent held) ∧
      ∀ n ∈ names, ∃ c ∈ names.foldl g.addComponent held, n ∈ c
  | [], held, _ => ⟨fun _ hc => .inl hc, fun _ hc => hc, by simp⟩
  | n :: rest, held, hn => by
    obtain ⟨ihc, ihh, ihn⟩ := foldl_addComponent g rest (g.addComponent held n)
      fun m hm => hn m (by simp [hm])
    have hstep : ∀ c ∈ g.addComponent held n, c ∈ held ∨ c = g.component n := by
      intro c hc
      unfold addComponent at hc
      split at hc
      · exact .inl hc
      · exact (List.mem_cons.mp hc).symm
    have hkeep : ∀ c ∈ held, c ∈ g.addComponent held n := by
      intro c hc
      unfold addComponent
      split
      · exact hc
      · exact List.mem_cons_of_mem _ hc
    have hown : ∃ c ∈ g.addComponent held n, n ∈ c := by
      unfold addComponent
      split
      · rename_i h
        obtain ⟨c, hc, hm⟩ := List.any_eq_true.mp h
        exact ⟨c, hc, List.contains_iff_mem.mp hm⟩
      · exact ⟨_, List.mem_cons_self, (mem_component (hn n (by simp))).mpr ⟨.refl, .refl⟩⟩
    refine ⟨fun c hc => ?_, fun c hc => ihh c (hkeep c hc), fun m hm => ?_⟩
    · rcases ihc c hc with h | ⟨m, hm, h⟩
      · exact (hstep c h).imp_right fun h => ⟨n, by simp, h⟩
      · exact .inr ⟨m, by simp [hm], h⟩
    · rcases List.mem_cons.mp hm with rfl | hm
      · obtain ⟨c, hc, hm⟩ := hown
        exact ⟨c, ihh c hc, hm⟩
      · exact ihn m hm

theorem eq_component_of_mem {c : List String} (h : c ∈ g.components) :
    ∃ n ∈ g.nodes, c = g.component n := by
  rcases (foldl_addComponent g g.nodes [] fun _ h => h).1 c h with h | h
  · cases h
  · exact h

theorem exists_component (hn : name ∈ g.nodes) : ∃ c ∈ g.components, name ∈ c :=
  (foldl_addComponent g g.nodes [] fun _ h => h).2.2 name hn

/-! ## Nodes on loops -/

/-- The nodes of a component that makes a loop depend on themselves. -/
theorem transGen_of_isLoop (hn : name ∈ g.nodes) (hl : g.isLoop (g.component name) = true)
    (hx : x ∈ g.component name) : TransGen g.DependsOn x x := by
  obtain ⟨hnx, hxn⟩ := (mem_component hn).mp hx
  by_cases hy : ∃ y ∈ g.component name, y ≠ x
  · obtain ⟨y, hy, hne⟩ := hy
    obtain ⟨hny, hyn⟩ := (mem_component hn).mp hy
    have hxy : ReflTransGen g.DependsOn x y := hxn.trans hny
    rcases reflTransGen_iff_eq_or_transGen.mp hxy with h | h
    · exact absurd h hne
    · exact h.trans_left (hyn.trans hnx)
  · -- the component is that one node, so the loop is a dependency on itself
    have hall : ∀ y ∈ g.component name, y = x := fun y h => by_contra fun hne => hy ⟨y, h, hne⟩
    cases hc : g.component name with
    | nil => rw [hc] at hx; cases hx
    | cons h rest =>
      have hnd := nodup_component hn
      rw [hc] at hl hall hnd
      have hh : h = x := hall h List.mem_cons_self
      cases rest with
      | nil =>
        subst hh
        simp only [isLoop, List.length_singleton, List.head?_cons, Option.any_some, Nat.lt_irrefl,
          decide_false, Bool.false_or, List.contains_iff_mem] at hl
        exact .single hl
      | cons h' rest =>
        have hh' : h' = x := hall h' (by simp)
        simp [hh, hh'] at hnd

theorem isLoop_of_transGen {c : List String} (hn : name ∈ g.nodes) (hc : c = g.component name)
    (hx : x ∈ c) (h : TransGen g.DependsOn x x) : g.isLoop c = true := by
  subst hc
  obtain ⟨hnx, hxn⟩ := (mem_component hn).mp hx
  obtain ⟨d, hd, hdx⟩ := TransGen.head'_iff.mp h
  have hdc : d ∈ g.component name :=
    (mem_component hn).mpr ⟨hnx.tail hd, hdx.trans hxn⟩
  unfold isLoop
  cases hc : g.component name with
  | nil => rw [hc] at hx; cases hx
  | cons a rest =>
    rw [hc] at hx hdc
    cases rest with
    | nil =>
      rw [List.mem_singleton] at hx hdc
      subst hx hdc
      simpa using List.contains_iff_mem.mpr hd
    | cons b rest => simp

/-- The two ways to look for loops agree with the dependencies, and so with each other. -/
theorem mem_looped : x ∈ g.looped ↔ TransGen g.DependsOn x x := by
  simp only [looped, List.mem_filter, List.contains_iff_mem, List.mem_flatten]
  constructor
  · rintro ⟨_, c, ⟨hc, hl⟩, hx⟩
    obtain ⟨n, hn, rfl⟩ := eq_component_of_mem hc
    exact transGen_of_isLoop hn hl hx
  · intro h
    have hx := mem_of_transGen h
    obtain ⟨c, hc, hxc⟩ := exists_component hx
    obtain ⟨n, hn, he⟩ := eq_component_of_mem hc
    exact ⟨hx, c, ⟨hc, isLoop_of_transGen hn he hxc h⟩, hxc⟩

theorem looped_sublist (g : DependencyGraph) : g.looped.Sublist g.nodes := List.filter_sublist

end GanttChart.DependencyGraph
