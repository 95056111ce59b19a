import GanttChart.Proofs.Dependency.Cycle
import Mathlib.Order.WellFoundedSet

/-! # The order of resolution

Without loops the order of resolution reaches every node, and each place of it comes after all that
its node depends on. Nothing is said about how often a node occurs. -/

namespace GanttChart.DependencyGraph

open Relation

/-- Each name of a list comes after all that it depends on. -/
def Grounded (deps : String → List String) (order : List String) : Prop :=
  ∀ before x after, order = before ++ x :: after → ∀ d ∈ deps x, d ∈ before

namespace Grounded

variable {deps : String → List String} {l l' : List String} {x : String}

theorem nil : Grounded deps [] := fun before _ _ h => by cases before <;> cases h

theorem extend (hl : Grounded deps l)
    (h : ∀ before y after, l' = before ++ y :: after → ∀ d ∈ deps y, d ∈ l ∨ d ∈ before) :
    Grounded deps (l ++ l') := by
  intro before y after he d hd
  rcases List.append_eq_append_iff.mp he with ⟨more, hb, he'⟩ | ⟨more, hb, he'⟩
  · rw [hb, List.mem_append]
    exact h more y after he' d hd
  · cases more with
    | nil =>
      rw [List.append_nil] at hb
      rw [List.nil_append] at he'
      rw [← hb]
      exact (h [] y after he'.symm d hd).resolve_right List.not_mem_nil
    | cons z more =>
      rw [List.cons_append] at he'
      obtain ⟨rfl, _⟩ := List.cons.inj he'
      exact hl before y more hb d hd

theorem append (hl : Grounded deps l) (hl' : Grounded deps l') : Grounded deps (l ++ l') :=
  hl.extend fun before y after he d hd => .inr (hl' before y after he d hd)

theorem snoc (hl : Grounded deps l) (hx : ∀ d ∈ deps x, d ∈ l) : Grounded deps (l ++ [x]) := by
  refine hl.extend fun before y after he d hd => .inl ?_
  have hy : y ∈ [x] := he ▸ by simp
  rw [List.mem_singleton.mp hy] at hd
  exact hx d hd

theorem flatten {ls : List (List String)} (h : ∀ c ∈ ls, Grounded deps c) :
    Grounded deps ls.flatten := by
  induction ls with
  | nil => exact nil
  | cons c rest ih =>
    exact (h c (by simp)).append (ih fun c' hc' => h c' (by simp [hc']))

theorem of_no_deps (h : ∀ y ∈ l, deps y = []) : Grounded deps l := by
  intro before y after he d hd
  rw [h y (he ▸ by simp)] at hd
  cases hd

end Grounded

/-- The invariant of walks without loops: a node that is met and not finished depends on all that
the walk has still to go to, so that nothing finishes before what it depends on. -/
theorem Visits.grounded {deps : String → List String} {w last : Walk} {names : List String}
    (h : Visits deps w names last) (hac : ∀ n, ¬ TransGen (fun a b => b ∈ deps a) n n)
    (hopen : ∀ o ∈ w.met, o ∉ w.finished → ∀ n ∈ names, TransGen (fun a b => b ∈ deps a) o n)
    (hw : Grounded deps w.finished.reverse) : Grounded deps last.finished.reverse := by
  induction h with
  | done _ => exact hw
  | skip _ _ ih => exact ih (fun o ho hf n hn => hopen o ho hf n (by simp [hn])) hw
  | @enter w inner last name rest hm inside after ihi iha =>
    have hinner : Grounded deps inner.finished.reverse := by
      refine ihi (fun o ho hf n hn => ?_) hw
      rcases Std.HashSet.mem_insert.mp ho with he | ho
      · rw [← beq_iff_eq.mp he]
        exact .single hn
      · exact (hopen o ho hf name (by simp)).tail hn
    -- what the node depends on is met; were it open, it would depend on itself
    have hdeps : ∀ d ∈ deps name, d ∈ inner.finished := by
      intro d hd
      by_contra hf
      have hfw : d ∉ w.finished := fun h => hf (inside.mem_finished.mpr (.inl h))
      have hdw : d ∈ w.met.insert name := by
        by_contra hn
        exact hf (inside.mem_finished.mpr (.inr ⟨inside.names_met d hd, hn⟩))
      rcases Std.HashSet.mem_insert.mp hdw with he | hdw
      · rw [beq_iff_eq] at he
        subst he
        exact hac _ (.single hd)
      · exact hac d ((hopen d hdw hfw name (by simp)).tail hd)
    refine iha (fun o ho hf n hn => ?_) ?_
    · have hof : o ∉ inner.finished := fun h => hf (by simp [h])
      have hon : o ≠ name := fun h => hf (by simp [h])
      have hofw : o ∉ w.finished := fun h => hof (inside.mem_finished.mpr (.inl h))
      have how : o ∈ w.met.insert name := by
        by_contra h
        exact hof (inside.mem_finished.mpr (.inr ⟨ho, h⟩))
      rcases Std.HashSet.mem_insert.mp how with he | how
      · exact absurd (beq_iff_eq.mp he).symm hon
      · exact hopen o how hofw n (by simp [hn])
    · rw [List.reverse_cons]
      exact hinner.snoc fun d hd => List.mem_reverse.mpr (hdeps d hd)

variable {g : DependencyGraph} {name x : String}

theorem grounded_chainTo (hc : g.isCyclic = false) (hn : name ∈ g.nodes) :
    Grounded g.dependencies (g.chainTo name) := by
  obtain ⟨w, hw, he⟩ := visits_chainTo hn
  rw [he]
  exact hw.grounded (not_isCyclic_iff.mp hc) (by simp [Walk.start]) Grounded.nil

/-! ## Leaves -/

theorem hasDependents_iff : g.hasDependents name = true ↔ ∃ n, g.DependsOn n name := by
  simp only [hasDependents, List.any_eq_true, List.contains_iff_mem]
  constructor
  · rintro ⟨n, _, h⟩
    exact ⟨n, h⟩
  · rintro ⟨n, h⟩
    exact ⟨n, DependsOn.mem_left h, h⟩

/-- Going from a node to what depends on it ends, without loops, at a node nothing depends on. -/
theorem exists_top (hc : g.isCyclic = false) (hn : name ∈ g.nodes) :
    ∃ top ∈ g.nodes, g.hasDependents top = false ∧ ReflTransGen g.DependsOn top name := by
  have hirr : Std.Irrefl (TransGen g.DependsOn) := ⟨not_isCyclic_iff.mp hc⟩
  have horder : IsStrictOrder String (TransGen g.DependsOn) := { }
  have hwf : {n | n ∈ g.nodes}.WellFoundedOn (TransGen g.DependsOn) :=
    g.nodes.finite_toSet.wellFoundedOn
  refine hwf.induction
    (P := fun n => ∃ top ∈ g.nodes, g.hasDependents top = false ∧ ReflTransGen g.DependsOn top n)
    hn fun n hn ih => ?_
  by_cases hd : g.hasDependents n = true
  · obtain ⟨m, hm⟩ := hasDependents_iff.mp hd
    obtain ⟨top, ht, hno, hr⟩ := ih m hm.mem_left (.single hm)
    exact ⟨top, ht, hno, hr.tail hm⟩
  · exact ⟨n, hn, by simpa using hd, .refl⟩

theorem mem_resolutionOrder (hc : g.isCyclic = false) (hn : name ∈ g.nodes) :
    name ∈ g.resolutionOrder := by
  obtain ⟨top, ht, hno, hr⟩ := exists_top hc hn
  simp only [resolutionOrder, List.mem_append, independents, List.mem_filter, chains,
    List.mem_flatten, List.mem_map]
  by_cases hd : g.dependencies top = []
  · left
    rcases ReflTransGen.cases_head hr with rfl | ⟨d, hstep, _⟩
    · exact ⟨hn, by simp [hd, hno]⟩
    · rw [DependsOn, hd] at hstep
      cases hstep
  · right
    have hleaf : top ∈ g.leaves := List.mem_filter.mpr ⟨ht, by simp [hd, hno]⟩
    exact ⟨_, ⟨top, hleaf, rfl⟩, (mem_chainTo ht).mpr hr⟩

theorem grounded_resolutionOrder (hc : g.isCyclic = false) :
    Grounded g.dependencies g.resolutionOrder := by
  refine Grounded.append (Grounded.of_no_deps fun n hn => ?_) (Grounded.flatten fun c hc' => ?_)
  · simp only [independents, List.mem_filter, Bool.and_eq_true, List.isEmpty_iff] at hn
    exact hn.2.1
  · obtain ⟨leaf, hl, rfl⟩ := List.mem_map.mp hc'
    exact grounded_chainTo hc (List.mem_filter.mp hl).1

end GanttChart.DependencyGraph
