import Std.Data.HashMap
import Std.Data.HashSet

/-! Dependencies between named items. The nodes keep the order in which they were declared, and
every node has the list of nodes it depends on, in that same order. Walks go from a node against
the dependencies and finish each node after all it depends on. -/

namespace GanttChart

structure DependencyGraph where
  nodes : List String
  /-- What each node depends on. -/
  incoming : Std.HashMap String (List String)
  nodup : nodes.Nodup
  /-- Only nodes depend on something, and only on nodes. -/
  closed : ∀ n d, d ∈ incoming.getD n [] → n ∈ nodes ∧ d ∈ nodes

namespace DependencyGraph

/-- The names that are not among the seen ones, without repetitions, each at its first place. -/
def unseen (seen : Std.HashSet String) : List String → List String
  | [] => []
  | n :: rest => if seen.contains n then unseen seen rest else n :: unseen (seen.insert n) rest

theorem mem_unseen {x : String} {names : List String} {seen : Std.HashSet String} :
    x ∈ unseen seen names ↔ x ∈ names ∧ x ∉ seen := by
  induction names generalizing seen with
  | nil => simp [unseen]
  | cons n rest ih =>
    simp only [unseen]
    split
    · rename_i hn
      have hn : n ∈ seen := Std.HashSet.contains_iff_mem.mp hn
      by_cases hx : x = n
      · subst hx; simp [ih, hn]
      · simp [ih, hx]
    · rename_i hn
      have hn : n ∉ seen := fun h => hn (Std.HashSet.contains_iff_mem.mpr h)
      by_cases hx : x = n
      · subst hx; simp [hn]
      · simp [ih, hx, Ne.symm hx]

theorem nodup_unseen (names : List String) (seen : Std.HashSet String) :
    (unseen seen names).Nodup := by
  induction names generalizing seen with
  | nil => simp [unseen]
  | cons n rest ih =>
    simp only [unseen]
    split
    · exact ih seen
    · exact List.nodup_cons.mpr ⟨by simp [mem_unseen], ih _⟩

/-- The names without repetitions, each at its first place. -/
def distinct (names : List String) : List String := unseen ∅ names

/-- The graph of some names without dependencies. -/
def ofNames (names : List String) : DependencyGraph :=
  ⟨distinct names, ∅, nodup_unseen names ∅, by simp⟩

def contains (g : DependencyGraph) (name : String) : Bool := g.nodes.contains name

/-- What a node depends on, in the order of the nodes. -/
def dependencies (g : DependencyGraph) (name : String) : List String := g.incoming.getD name []

def hasDependents (g : DependencyGraph) (name : String) : Bool :=
  g.nodes.any fun n => (g.dependencies n).contains name

theorem closed_insert (g : DependencyGraph) {name : String} {wanted : List String}
    (hn : g.contains name = true) (hw : ∀ d ∈ wanted, d ∈ g.nodes) :
    ∀ n d, d ∈ (g.incoming.insert name wanted).getD n [] → n ∈ g.nodes ∧ d ∈ g.nodes := by
  intro n d h
  rw [Std.HashMap.getD_insert] at h
  split at h
  · rename_i he
    exact ⟨beq_iff_eq.mp he ▸ List.contains_iff_mem.mp hn, hw d h⟩
  · exact g.closed n d h

/-- The graph in which `dependent` depends on `dependency`; none when a name is not a node. -/
def connect? (g : DependencyGraph) (dependency dependent : String) : Option DependencyGraph :=
  if h : g.contains dependency && g.contains dependent then
    let held := g.dependencies dependent
    let wanted := g.nodes.filter fun n => n == dependency || held.contains n
    have hw : ∀ d ∈ wanted, d ∈ g.nodes := fun _ hd => (List.mem_filter.mp hd).1
    some
      { g with
        incoming := g.incoming.insert dependent wanted
        closed := g.closed_insert (Bool.and_eq_true_iff.mp h).2 hw }
  else none

theorem connect?_eq_none_iff {g : DependencyGraph} {a b : String} :
    g.connect? a b = none ↔ ¬ (a ∈ g.nodes ∧ b ∈ g.nodes) := by
  have hc : (g.contains a && g.contains b) = true ↔ a ∈ g.nodes ∧ b ∈ g.nodes := by
    simp [contains]
  unfold connect?
  split
  · rename_i h
    simpa using hc.mp h
  · rename_i h
    simpa using fun ha hb => h (hc.mpr ⟨ha, hb⟩)

theorem nodes_connect? {g g' : DependencyGraph} {a b : String} (h : g.connect? a b = some g') :
    g'.nodes = g.nodes := by
  simp only [connect?] at h
  split at h
  · cases h; rfl
  · cases h

theorem mem_dependencies_connect? {g g' : DependencyGraph} {a b n d : String}
    (h : g.connect? a b = some g') :
    d ∈ g'.dependencies n ↔ d ∈ g.dependencies n ∨ (n = b ∧ d = a) := by
  simp only [connect?] at h
  split at h
  · rename_i hc
    simp only [contains, Bool.and_eq_true, List.contains_iff_mem] at hc
    cases h
    simp only [dependencies, Std.HashMap.getD_insert]
    by_cases hn : n = b
    · subst hn
      have hheld : d ∈ g.incoming.getD n [] → d ∈ g.nodes := fun h => (g.closed n d h).2
      by_cases hd : d = a
      · subst hd; simp [hc.1]
      · simpa [hd] using hheld
    · simp [hn, Ne.symm hn]
  · cases h

def edgeCount (g : DependencyGraph) : Nat := (g.nodes.flatMap g.dependencies).length

/-- How far a walk has come: the nodes it has met, and those it has finished, the latest first. -/
structure Walk where
  met : Std.HashSet String
  finished : List String

def Walk.start : Walk := ⟨∅, []⟩

/-- Goes to a node, unless the walk has met it, then to all it depends on, and finishes it. Every
node on the way has been met before, so `depth` need not exceed the number of nodes. -/
def Walk.visit (dependencies : String → List String) : Nat → Walk → String → Walk
  | 0, w, _ => w
  | depth + 1, w, name =>
    if w.met.contains name then w
    else
      let inner := (dependencies name).foldl (Walk.visit dependencies depth)
        { w with met := w.met.insert name }
      { inner with finished := name :: inner.finished }

/-- The nodes that a node depends on, directly or through others, and the node itself: in an order
in which each comes after all it depends on, unless there are loops. -/
def chainTo (g : DependencyGraph) (name : String) : List String :=
  (Walk.visit g.dependencies g.nodes.length .start name).finished.reverse

/-- Whether a node depends on itself, directly or through others. -/
def isLooped (g : DependencyGraph) (name : String) : Bool :=
  (g.dependencies name).any fun d => (g.chainTo d).contains name

def isCyclic (g : DependencyGraph) : Bool := g.nodes.any g.isLooped

/-- A node with the nodes that it depends on and that depend on it, directly or through others. -/
def component (g : DependencyGraph) (name : String) : List String :=
  (g.chainTo name).filter fun n => (g.chainTo n).contains name

/-- The components with that of a node, unless it is among them. -/
def addComponent (g : DependencyGraph) (held : List (List String)) (name : String) :
    List (List String) :=
  if held.any fun c => c.contains name then held else g.component name :: held

def components (g : DependencyGraph) : List (List String) := g.nodes.foldl g.addComponent []

/-- Whether a component has several nodes or consists of one that depends on itself directly. -/
def isLoop (g : DependencyGraph) (c : List String) : Bool :=
  1 < c.length || c.head?.any fun n => (g.dependencies n).contains n

/-- The nodes on loops, in the order of the nodes. -/
def looped (g : DependencyGraph) : List String :=
  let members := (g.components.filter g.isLoop).flatten
  g.nodes.filter members.contains

/-- The nodes that neither depend on others nor have others depend on them. -/
def independents (g : DependencyGraph) : List String :=
  g.nodes.filter fun n => (g.dependencies n).isEmpty && !g.hasDependents n

/-- The nodes that depend on others while none depends on them. -/
def leaves (g : DependencyGraph) : List String :=
  g.nodes.filter fun n => !g.hasDependents n && !(g.dependencies n).isEmpty

/-- One chain for each leaf; a node may be in several of them. -/
def chains (g : DependencyGraph) : List (List String) := g.leaves.map g.chainTo

/-- An order of all nodes in which each has an earlier place than what depends on it, unless there
are loops; nodes may repeat. -/
def resolutionOrder (g : DependencyGraph) : List String := g.independents ++ g.chains.flatten

end DependencyGraph

end GanttChart
