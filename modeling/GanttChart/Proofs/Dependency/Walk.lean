import GanttChart.DependencyGraph
import Mathlib.Data.List.Nodup
import Mathlib.Logic.Relation

/-! # What a walk through the dependencies finds

A walk with enough depth left is described by a relation without depth, and what walks do is proved
by induction on that relation. The chain of a node then holds exactly the nodes it depends on,
directly or through others, and the node itself, each once. -/

namespace GanttChart.DependencyGraph

open Relation

/-- The first node depends on the second one directly. -/
def DependsOn (g : DependencyGraph) (a b : String) : Prop := b ∈ g.dependencies a

/-- Going to the names in turn takes a walk from its first state to its last one. -/
inductive Visits (deps : String → List String) : Walk → List String → Walk → Prop
  | done (w : Walk) : Visits deps w [] w
  | skip {w last : Walk} {name : String} {rest : List String} (hm : name ∈ w.met)
      (after : Visits deps w rest last) : Visits deps w (name :: rest) last
  | enter {w inner last : Walk} {name : String} {rest : List String} (hm : name ∉ w.met)
      (inside : Visits deps { w with met := w.met.insert name } (deps name) inner)
      (after : Visits deps { inner with finished := name :: inner.finished } rest last) :
      Visits deps w (name :: rest) last

namespace Visits

variable {deps : String → List String} {w last : Walk} {names : List String} {x : String}

theorem met_mono (h : Visits deps w names last) (hx : x ∈ w.met) : x ∈ last.met := by
  induction h with
  | done _ => exact hx
  | skip _ _ ih => exact ih hx
  | enter _ _ _ ihi iha => exact iha (ihi (Std.HashSet.mem_insert.mpr (Or.inr hx)))

theorem names_met (h : Visits deps w names last) : ∀ n ∈ names, n ∈ last.met := by
  induction h with
  | done _ => simp
  | skip hm after ih =>
    intro n hn
    rcases List.mem_cons.mp hn with rfl | hn
    · exact after.met_mono hm
    · exact ih n hn
  | enter _ inside after _ iha =>
    intro n hn
    rcases List.mem_cons.mp hn with rfl | hn
    · exact after.met_mono (inside.met_mono (Std.HashSet.mem_insert.mpr (Or.inl (by simp))))
    · exact iha n hn

/-- A walk finishes all that it meets. -/
theorem mem_finished (h : Visits deps w names last) :
    x ∈ last.finished ↔ x ∈ w.finished ∨ (x ∈ last.met ∧ x ∉ w.met) := by
  induction h with
  | done _ => simp
  | skip _ _ ih => exact ih
  | @enter w inner last name rest hm inside after ihi iha =>
    have hname : name ∈ last.met := after.met_mono (inside.met_mono (by simp))
    have hinner : x ∈ inner.met → x ∈ last.met := after.met_mono
    have houter : x ∈ w.met → x ∈ inner.met := fun hx => inside.met_mono (by simp [hx])
    -- what is finished in the end: the node, what the walk inside met, and what was met after it
    simp only [List.mem_cons, ihi, Std.HashSet.mem_insert, beq_iff_eq] at iha
    rw [iha]
    by_cases hx : x = name
    · subst hx; simp [hname, hm]
    · have hx' : ¬ name = x := fun he => hx he.symm
      simp only [hx, hx', false_or]
      constructor
      · rintro ((hf | ⟨hi, hw⟩) | ⟨hl, hi⟩)
        · exact .inl hf
        · exact .inr ⟨hinner hi, hw⟩
        · exact .inr ⟨hl, fun hw => hi (houter hw)⟩
      · rintro (hf | ⟨hl, hw⟩)
        · exact .inl (.inl hf)
        · by_cases hi : x ∈ inner.met
          · exact .inl (.inr ⟨hi, hw⟩)
          · exact .inr ⟨hl, hi⟩

theorem nodup_finished (h : Visits deps w names last) (hn : w.finished.Nodup)
    (hm : ∀ n ∈ w.finished, n ∈ w.met) : last.finished.Nodup := by
  induction h with
  | done _ => exact hn
  | skip _ _ ih => exact ih hn hm
  | @enter w inner last name rest hname inside after ihi iha =>
    have hi := ihi hn fun n h => by simp [hm n h]
    refine iha (List.nodup_cons.mpr ⟨?_, hi⟩) ?_
    · -- the walk inside starts with the node already met, so it cannot finish it
      intro h
      rcases inside.mem_finished.mp h with h | ⟨_, h⟩
      · exact hname (hm name h)
      · exact h (by simp)
    · intro n h
      rcases List.mem_cons.mp h with rfl | h
      · exact inside.met_mono (by simp)
      · rcases inside.mem_finished.mp h with h | ⟨h, _⟩
        · exact inside.met_mono (by simp [hm n h])
        · exact h

/-- What a newly met node depends on is met as well. -/
theorem closed (h : Visits deps w names last) (hx : x ∈ last.met) (hw : x ∉ w.met) :
    ∀ d ∈ deps x, d ∈ last.met := by
  induction h with
  | done _ => exact absurd hx hw
  | skip _ _ ih => exact ih hx hw
  | @enter w inner last name rest _ inside after ihi iha =>
    intro d hd
    by_cases hi : x ∈ inner.met
    · by_cases he : x = name
      · subst he; exact after.met_mono (inside.names_met d hd)
      · have he : ¬ name = x := fun h => he h.symm
        exact after.met_mono (ihi hi (by simp [he, hw]) d hd)
    · exact iha hx hi d hd

/-- What is newly met is found by following dependencies from the names. -/
theorem reached (h : Visits deps w names last) (hx : x ∈ last.met) (hw : x ∉ w.met) :
    ∃ n ∈ names, ReflTransGen (fun a b => b ∈ deps a) n x := by
  induction h with
  | done _ => exact absurd hx hw
  | skip _ _ ih =>
    obtain ⟨n, hn, hr⟩ := ih hx hw
    exact ⟨n, List.mem_cons_of_mem _ hn, hr⟩
  | @enter w inner last name rest _ inside after ihi iha =>
    by_cases hi : x ∈ inner.met
    · by_cases he : x = name
      · subst he; exact ⟨x, by simp, .refl⟩
      · have he : ¬ name = x := fun h => he h.symm
        obtain ⟨n, hn, hr⟩ := ihi hi (by simp [he, hw])
        exact ⟨name, by simp, .head hn hr⟩
    · obtain ⟨n, hn, hr⟩ := iha hx hi
      exact ⟨n, List.mem_cons_of_mem _ hn, hr⟩

end Visits

/-! ## Depth -/

/-- How many of the nodes a walk has not met. -/
def Walk.unmet (nodes : List String) (w : Walk) : Nat := nodes.countP fun n => !w.met.contains n

theorem Walk.unmet_le {nodes : List String} {w w' : Walk} (h : ∀ x ∈ w.met, x ∈ w'.met) :
    w'.unmet nodes ≤ w.unmet nodes := by
  refine List.countP_mono_left fun x _ hx => ?_
  simp only [Bool.not_eq_true', Std.HashSet.contains_eq_false_iff_not_mem] at hx ⊢
  exact fun hm => hx (h x hm)

theorem Walk.unmet_insert_lt {nodes : List String} {w : Walk} {name : String}
    (hn : name ∈ nodes) (hm : name ∉ w.met) :
    Walk.unmet nodes { w with met := w.met.insert name } < w.unmet nodes := by
  induction nodes with
  | nil => cases hn
  | cons a rest ih =>
    have hle : Walk.unmet rest { w with met := w.met.insert name } ≤ w.unmet rest :=
      Walk.unmet_le fun x hx => by simp [hx]
    simp only [Walk.unmet, List.countP_cons, Std.HashSet.contains_insert, Bool.not_or] at ih hle ⊢
    by_cases ha : name = a
    · subst ha
      simp [hm]
      omega
    · have hr := ih ((List.mem_cons.mp hn).resolve_left ha)
      simp [ha]
      omega

/-- A depth of as many steps as there are nodes left is enough. -/
theorem visits_foldl {deps : String → List String} {nodes : List String}
    (hc : ∀ n d, d ∈ deps n → d ∈ nodes) (depth : Nat) :
    ∀ (names : List String) (w : Walk), (∀ n ∈ names, n ∈ nodes) → w.unmet nodes ≤ depth →
      Visits deps w names (names.foldl (Walk.visit deps depth) w) := by
  induction depth with
  | zero =>
    intro names w hn hd
    -- without depth left there is no node left, so every name is skipped
    have hall : ∀ n ∈ nodes, n ∈ w.met := by
      intro n h
      by_contra hm
      have := Walk.unmet_insert_lt h hm
      omega
    induction names with
    | nil => exact .done w
    | cons name rest ih =>
      exact .skip (hall name (hn name (by simp))) (ih fun n h => hn n (by simp [h]))
  | succ depth ihd =>
    intro names
    induction names with
    | nil => intro w _ _; exact .done w
    | cons name rest ih =>
      intro w hn hd
      have hrest : ∀ n ∈ rest, n ∈ nodes := fun n h => hn n (by simp [h])
      rw [List.foldl_cons]
      by_cases hm : name ∈ w.met
      · rw [Walk.visit, if_pos (Std.HashSet.contains_iff_mem.mpr hm)]
        exact .skip hm (ih w hrest hd)
      · rw [Walk.visit, if_neg (fun h => hm (Std.HashSet.contains_iff_mem.mp h))]
        have hlt := Walk.unmet_insert_lt (hn name (by simp)) hm
        have inside := ihd (deps name) { w with met := w.met.insert name } (hc name) (by omega)
        refine .enter hm inside (ih _ hrest ?_)
        refine Nat.le_trans (Walk.unmet_le fun x hx => ?_) hd
        exact inside.met_mono (by simp [hx])

/-! ## Chains -/

variable {g : DependencyGraph} {name x : String}

theorem visits_chainTo (hn : name ∈ g.nodes) :
    ∃ w, Visits g.dependencies .start [name] w ∧ g.chainTo name = w.finished.reverse := by
  refine ⟨_, visits_foldl (fun n d h => (g.closed n d h).2) g.nodes.length [name] .start ?_ ?_, rfl⟩
  · intro n h
    rwa [List.mem_singleton.mp h]
  · exact List.countP_le_length

/-- A chain holds the nodes that its node depends on, directly or through others, and the node. -/
theorem mem_chainTo (hn : name ∈ g.nodes) :
    x ∈ g.chainTo name ↔ ReflTransGen g.DependsOn name x := by
  obtain ⟨w, hw, hc⟩ := visits_chainTo hn
  have hstart (y : String) : y ∉ Walk.start.met := by simp [Walk.start]
  rw [hc, List.mem_reverse, hw.mem_finished]
  simp only [Walk.start, List.not_mem_nil, Std.HashSet.not_mem_empty, not_false_eq_true,
    and_true, false_or]
  constructor
  · intro hx
    obtain ⟨n, hmem, hr⟩ := hw.reached hx (hstart x)
    rwa [List.mem_singleton.mp hmem] at hr
  · intro hr
    induction hr with
    | refl => exact hw.names_met name (by simp)
    | tail _ hstep ih => exact hw.closed ih (hstart _) _ hstep

theorem nodup_chainTo (hn : name ∈ g.nodes) : (g.chainTo name).Nodup := by
  obtain ⟨w, hw, hc⟩ := visits_chainTo hn
  rw [hc, List.nodup_reverse]
  exact hw.nodup_finished List.nodup_nil (by simp [Walk.start])

end GanttChart.DependencyGraph
