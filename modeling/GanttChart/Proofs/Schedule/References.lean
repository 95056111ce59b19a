import GanttChart.Proofs.Dependency.Links
import GanttChart.Proofs.Dependency.Order
import GanttChart.Proofs.Plan.Solution

/-! # References between items

The graph of a list of items has the items as nodes and their references to each other as
dependencies, however the items are listed. -/

namespace GanttChart

namespace Entry

/-- An item refers to another one: the start or the end of its plan, after a milestone has been
given both, is a reference to the start or the end of that other item. -/
def Refers (entries : List Entry) (a b : String) : Prop :=
  (∃ e ∈ entries, e.name = a ∧ ∃ r raw, e.range? = some r ∧
    (r.start = some raw ∨ r.finish = some raw) ∧
    (DateExpr.read? raw = some (.startOf b) ∨ DateExpr.read? raw = some (.endOf b))) ∧
  b ∈ entries.map Entry.name

theorem mem_references {e : Entry} {name : String} :
    name ∈ e.references ↔ ∃ r, e.range? = some r ∧ name ∈ r.references := by
  unfold references
  cases e.range? with
  | none => simp
  | some r => simp

theorem reference?_eq_some_iff {expr : DateExpr} {name : String} :
    expr.reference? = some name ↔ expr = .startOf name ∨ expr = .endOf name := by
  cases expr <;> simp [DateExpr.reference?]

theorem refers_iff {entries : List Entry} {a b : String} :
    Refers entries a b ↔
      (∃ e ∈ entries, e.name = a ∧ b ∈ e.references) ∧ b ∈ entries.map Entry.name := by
  refine and_congr_left fun _ => exists_congr fun e => and_congr_right fun _ =>
    and_congr_right fun _ => ?_
  rw [mem_references]
  refine exists_congr fun r => ?_
  rw [PlanRange.mem_references, ← exists_and_left]
  refine exists_congr fun raw => ?_
  constructor
  · rintro ⟨hr, hraw, h | h⟩
    · exact ⟨hr, _, hraw, h, rfl⟩
    · exact ⟨hr, _, hraw, h, rfl⟩
  · rintro ⟨hr, expr, hraw, hread, hn⟩
    refine ⟨hr, hraw, ?_⟩
    rcases reference?_eq_some_iff.mp hn with rfl | rfl
    · exact .inl hread
    · exact .inr hread

/-- The listing of the items does not matter to what refers to what. -/
theorem refers_congr {entries entries' : List Entry} (h : ∀ e, e ∈ entries ↔ e ∈ entries') :
    Refers entries = Refers entries' := by
  funext a b
  simp only [Refers, List.mem_map, h]

/-! ## The graph -/

variable {g : DependencyGraph} {entries : List Entry} {e : Entry} {d n name : String}

theorem connect_eq_linkAll (g : DependencyGraph) (e : Entry) :
    connect g e = g.linkAll (e.references.map fun r => (r, e.name)) := by
  rw [connect, DependencyGraph.linkAll, List.foldl_map]

theorem foldl_connect_spec :
    ∀ (entries : List Entry) (g : DependencyGraph),
      (entries.foldl connect g).nodes = g.nodes ∧
      ∀ n d, d ∈ (entries.foldl connect g).dependencies n ↔
        d ∈ g.dependencies n ∨
          ((∃ e ∈ entries, e.name = n ∧ d ∈ e.references) ∧ d ∈ g.nodes ∧ n ∈ g.nodes)
  | [], g => ⟨rfl, by simp⟩
  | e :: rest, g => by
    obtain ⟨hn, hd⟩ := DependencyGraph.linkAll_spec (e.references.map fun r => (r, e.name)) g
    rw [← connect_eq_linkAll] at hn hd
    obtain ⟨ihn, ihd⟩ := foldl_connect_spec rest (connect g e)
    refine ⟨by rw [List.foldl_cons, ihn, hn], fun n d => ?_⟩
    rw [List.foldl_cons, ihd, hn, hd]
    simp only [List.mem_cons, exists_eq_or_imp, List.mem_map, Prod.mk.injEq]
    constructor
    · rintro ((h | ⟨⟨_, hr, rfl, rfl⟩, hnodes⟩) | ⟨he, hnodes⟩)
      · exact .inl h
      · exact .inr ⟨.inl ⟨rfl, hr⟩, hnodes⟩
      · exact .inr ⟨.inr he, hnodes⟩
    · rintro (h | ⟨⟨rfl, hr⟩ | he, hnodes⟩)
      · exact .inl (.inl h)
      · exact .inl (.inr ⟨⟨d, hr, rfl, rfl⟩, hnodes⟩)
      · exact .inr ⟨he, hnodes⟩

theorem mem_nodes_graph : n ∈ (graph entries).nodes ↔ n ∈ entries.map Entry.name := by
  rw [graph, (foldl_connect_spec entries _).1, DependencyGraph.mem_nodes_ofNames]

theorem nodes_graph (hn : (entries.map Entry.name).Nodup) :
    (graph entries).nodes = entries.map Entry.name := by
  rw [graph, (foldl_connect_spec entries _).1, DependencyGraph.nodes_ofNames hn]

/-- The dependencies of the graph are the references between items. -/
theorem dependsOn_graph : (graph entries).DependsOn = Refers entries := by
  funext a b
  rw [eq_iff_iff, DependencyGraph.DependsOn, graph, (foldl_connect_spec entries _).2, refers_iff]
  simp only [DependencyGraph.dependencies_ofNames, List.not_mem_nil, false_or,
    DependencyGraph.mem_nodes_ofNames]
  constructor
  · rintro ⟨h, hb, _⟩
    exact ⟨h, hb⟩
  · rintro ⟨⟨e, he, rfl, hr⟩, hb⟩
    exact ⟨⟨e, he, rfl, hr⟩, hb, List.mem_map.mpr ⟨e, he, rfl⟩⟩

end Entry

end GanttChart
