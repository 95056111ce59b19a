import GanttChart.Proofs.Dependency.Links
import GanttChart.Proofs.Dependency.Order
import Mathlib

/-! # Walking with a stack

A walk may keep what it has still to do on a stack instead of going into the dependencies of a node
before it goes on. A node can then stand on the stack several times, and only the first of its
entries that comes up is followed. Whatever loops there are, the stack runs empty, with the same
nodes finished in the same order as by going into each node in turn. -/

namespace GanttChart.DependencyGraph

open Relation

/-- An entry of the stack: a node to go to, or one to finish. -/
inductive Pending where
  | visit (name : String)
  | finish (name : String)

/-- A walk with what it has still to do, the next entry first. -/
structure StackWalk where
  stack : List Pending
  walk : Walk

namespace StackWalk

/-- Takes the next entry from the stack, and puts in its place what follows from it; none when the
stack is empty. Of the dependencies of a node only those that have not been met are put in. -/
def round? (deps : String → List String) : StackWalk → Option StackWalk
  | ⟨[], _⟩ => none
  | ⟨.finish name :: rest, w⟩ => some ⟨rest, { w with finished := name :: w.finished }⟩
  | ⟨.visit name :: rest, w⟩ =>
    if w.met.contains name then some ⟨rest, w⟩
    else
      let met := w.met.insert name
      let ahead := (deps name).filter fun d => !met.contains d
      some ⟨ahead.map .visit ++ .finish name :: rest, { w with met := met }⟩

/-- Rounds take a walk from one state to another one. -/
def Rounds (deps : String → List String) : StackWalk → StackWalk → Prop :=
  ReflTransGen fun s t => s.round? deps = some t

end StackWalk

open StackWalk

variable {deps : String → List String} {w last : Walk} {names : List String} {name : String}

/-- Going to names in turn, rounds come to the same end. Names that had been met when the stack was
filled may be missing from it. -/
theorem Visits.rounds (h : Visits deps w names last) (seen : Std.HashSet String)
    (hseen : ∀ x ∈ seen, x ∈ w.met) (rest : List Pending) :
    Rounds deps ⟨(names.filter fun n => !seen.contains n).map .visit ++ rest, w⟩
      ⟨rest, last⟩ := by
  induction h generalizing seen rest with
  | done w => exact .refl
  | @skip w last name names hm after ih =>
    by_cases hn : name ∈ seen
    · rw [List.filter_cons_of_neg (by simpa using hn)]
      exact ih seen hseen rest
    · rw [List.filter_cons_of_pos (by simpa using hn)]
      refine .head ?_ (ih seen hseen rest)
      exact if_pos (Std.HashSet.contains_iff_mem.mpr hm)
  | @enter w inner last name names hm inside after ihi iha =>
    rw [List.filter_cons_of_pos (by simpa using fun h => hm (hseen name h))]
    refine .head (if_neg fun h => hm (Std.HashSet.contains_iff_mem.mp h)) ?_
    -- the stack holds the dependencies, then the node to finish, then the names after it
    refine .trans (ihi (w.met.insert name) (fun _ hx => hx) _) (.head rfl ?_)
    exact iha seen (fun x hx => inside.met_mono (by simp [hseen x hx])) rest

/-- A walk to one node finishes it last. -/
theorem Visits.head?_finished (h : Visits deps w [name] last) (hm : name ∉ w.met) :
    last.finished.head? = some name := by
  cases h with
  | skip hname _ => exact absurd hname hm
  | enter _ _ after => cases after; rfl

/-! ## Why the stack runs empty -/

/-- What an entry weighs: finishing a node is less than going to it first. -/
def Pending.weight : Pending → Nat
  | visit _ => 2
  | finish _ => 1

/-- What rounds make less of: the nodes not met yet, and where those stay the same, the weight of
the stack. -/
def StackWalk.measure (nodes : List String) (s : StackWalk) : Nat × Nat :=
  (s.walk.unmet nodes, (s.stack.map Pending.weight).sum)

theorem measure_round? (g : DependencyGraph) {s t : StackWalk}
    (h : s.round? g.dependencies = some t) :
    Prod.Lex (· < ·) (· < ·) (t.measure g.nodes) (s.measure g.nodes) := by
  obtain ⟨stack, w⟩ := s
  cases stack with
  | nil => cases h
  | cons entry rest =>
    cases entry with
    | finish name =>
      cases h
      exact .right _ (by simp [Pending.weight])
    | visit name =>
      by_cases hm : name ∈ w.met
      · rw [round?, if_pos (Std.HashSet.contains_iff_mem.mpr hm)] at h
        cases h
        exact .right _ (by simp [Pending.weight])
      · rw [round?, if_neg (fun hc => hm (Std.HashSet.contains_iff_mem.mp hc))] at h
        cases h
        by_cases hn : name ∈ g.nodes
        · exact .left _ _ (Walk.unmet_insert_lt hn hm)
        · -- what is no node depends on nothing, so that only the entry itself is replaced
          have hdeps : g.dependencies name = [] :=
            List.eq_nil_iff_forall_not_mem.mpr fun d hd => hn (g.closed name d hd).1
          have hunmet : Walk.unmet g.nodes { w with met := w.met.insert name } ≤ w.unmet g.nodes :=
            Walk.unmet_le fun x hx => by simp [hx]
          rcases Nat.lt_or_eq_of_le hunmet with hlt | heq
          · exact .left _ _ hlt
          · rw [StackWalk.measure, StackWalk.measure, heq]
            exact .right _ (by simp [hdeps, Pending.weight])

/-- From no state do rounds go on for ever, whatever loops there are. -/
theorem wellFounded_round (g : DependencyGraph) :
    WellFounded fun t s : StackWalk => s.round? g.dependencies = some t :=
  Subrelation.wf (measure_round? g)
    (InvImage.wf (StackWalk.measure g.nodes) (Prod.lex Nat.lt_wfRel Nat.lt_wfRel).wf)

/-! ## Chains -/

variable {g : DependencyGraph}

/-- Walking from a node with a stack comes to an end and makes the chain of the node. The chain has
the node and what it depends on, directly or through others, each once, and the node itself last.
Without loops each place of it comes after all that its node depends on directly. -/
theorem chainTo_backtracks (hn : name ∈ g.nodes) :
    WellFounded (fun t s : StackWalk => s.round? g.dependencies = some t) ∧
    (∃ w, Rounds g.dependencies ⟨[.visit name], .start⟩ ⟨[], w⟩ ∧
      g.chainTo name = w.finished.reverse) ∧
    (g.chainTo name).Nodup ∧ (∀ x, x ∈ g.chainTo name ↔ ReflTransGen g.DependsOn name x) ∧
    (g.chainTo name).getLast? = some name ∧
    ((∀ n, ¬ TransGen g.DependsOn n n) → Grounded g.dependencies (g.chainTo name)) := by
  obtain ⟨w, hw, hchain⟩ := visits_chainTo hn
  have hstart : name ∉ Walk.start.met := by simp [Walk.start]
  refine ⟨wellFounded_round g, ⟨w, ?_, hchain⟩, nodup_chainTo hn, fun x => mem_chainTo hn, ?_, ?_⟩
  · have hrounds := hw.rounds ∅ (by simp) []
    rwa [List.filter_cons_of_pos (by simp)] at hrounds
  · rw [hchain, List.getLast?_reverse, hw.head?_finished hstart]
  · intro hac
    exact grounded_chainTo (not_isCyclic_iff.mpr hac) hn

/-- Two nodes that depend on a third one, and a fourth one that depends on both. -/
def diamond : DependencyGraph :=
  linked ["roof", "wall", "door", "floor"]
    [("floor", "wall"), ("floor", "door"), ("wall", "roof"), ("door", "roof")]

theorem chainTo_roof :
    "roof" ∈ diamond.nodes ∧ (∀ n, ¬ TransGen diamond.DependsOn n n) ∧
    diamond.chainTo "roof" = ["floor", "wall", "door", "roof"] ∧
    (∃ w, Rounds diamond.dependencies ⟨[.visit "roof"], .start⟩ ⟨[], w⟩ ∧
      w.finished = ["roof", "door", "wall", "floor"]) ∧
    (∀ x, ReflTransGen diamond.DependsOn "roof" x ↔ x ∈ ["floor", "wall", "door", "roof"]) ∧
    Grounded diamond.dependencies (diamond.chainTo "roof") := by
  have hn : "roof" ∈ diamond.nodes := mem_nodes_linked.mpr (by decide)
  have hac : ∀ n, ¬ TransGen diamond.DependsOn n n := not_isCyclic_iff.mp (by cbv)
  have hchain : diamond.chainTo "roof" = ["floor", "wall", "door", "roof"] := by cbv
  obtain ⟨_, ⟨w, hrounds, hw⟩, _, hmem, _, hgrounded⟩ := chainTo_backtracks hn
  refine ⟨hn, hac, hchain, ⟨w, hrounds, ?_⟩, fun x => ?_, hgrounded hac⟩
  · rw [hchain] at hw
    exact List.reverse_injective hw.symm
  · rw [← hmem, hchain]

end GanttChart.DependencyGraph
