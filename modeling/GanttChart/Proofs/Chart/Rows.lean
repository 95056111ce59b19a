import GanttChart.Chart.Rendering
import GanttChart.Proofs.Schedule.Paths
import GanttChart.Proofs.Schedule.Readiness
import Mathlib

/-! # The rows of a chart

The rows are numbered by walking the groups, and the canvas gets its height from counting labels
and members, whether they are items or not. That both agree, and that every path finds the rows it
joins, is owed to the groups of a resolved schedule: they hold nothing but items, and every
item. -/

namespace GanttChart

/-! ## Layers -/

/-- The elements of one layer, in their order. -/
def Drawing.inLayer (d : Drawing) (layer : Int) : List Element :=
  d.elements.filter fun e => e.layer == layer

/-- Sorting keeps the order within each layer. -/
theorem Drawing.inLayer_sorted (d : Drawing) (layer : Int) :
    d.sorted.inLayer layer = d.inLayer layer := by
  have hone : (d.inLayer layer).Pairwise fun a b => decide (a.layer ≤ b.layer) = true := by
    refine List.pairwise_of_forall_mem_list fun a ha b hb => ?_
    have ha := (List.mem_filter.mp ha).2
    have hb := (List.mem_filter.mp hb).2
    rw [beq_iff_eq] at ha hb
    simp [ha, hb]
  have hsub : (d.inLayer layer).Sublist d.sorted.elements :=
    List.sublist_mergeSort (fun a b c hab hbc => by simp at *; omega) (fun a b => by simp; omega)
      hone List.filter_sublist
  have hfiltered := hsub.filter fun e => e.layer == layer
  rw [inLayer, List.filter_filter] at hfiltered
  simp only [Bool.and_self] at hfiltered
  refine (hfiltered.eq_of_length ?_).symm
  exact (d.elements_sorted_perm.filter _).length_eq.symm

namespace Sheet

variable {s : Sheet} {e : Element}

theorem layer_of_monthMarks {c : WorkCalendar} {d : Day} (he : e ∈ s.monthMarks c d) :
    e.layer ∈ [Layer.grid, Layer.frame] := by
  simp only [monthMarks, List.mem_cons, List.not_mem_nil, or_false] at he
  rcases he with rfl | rfl <;> simp

theorem layer_of_dayMarks {c : WorkCalendar} {d : Day} (he : e ∈ s.dayMarks c d) :
    e.layer ∈ [Layer.grid] := by
  unfold dayMarks at he
  simp only at he
  split at he
  · simp only [List.mem_cons, List.not_mem_nil, or_false] at he
    rcases he with rfl | rfl | rfl <;> simp [columnLine]
  · split at he
    · simp only [List.mem_cons, List.not_mem_nil, or_false] at he
      rcases he with rfl | rfl <;> simp [columnLine]
    · cases he

theorem layer_of_columnMarks {c : WorkCalendar} {monthBefore : Option Nat} {days : List Day} :
    ∀ e ∈ s.columnMarks c monthBefore days, e.layer ∈ [Layer.grid, Layer.frame] := by
  intro e he
  obtain ⟨d, _, he⟩ := mem_columnMarks he
  rcases he with he | he
  · exact layer_of_monthMarks he
  · exact List.mem_cons.mpr (.inl (List.mem_singleton.mp (layer_of_dayMarks he)))

theorem layer_of_closedMarks {days : List Day} :
    ∀ e ∈ days.map s.closedMark, e.layer ∈ [Layer.closed] := by
  simp [closedMark]

theorem layer_of_frame : ∀ e ∈ s.frame, e.layer ∈ [Layer.frame] := by
  simp [frame]

theorem layer_of_calendarMarks {c : WorkCalendar} (he : e ∈ s.calendarMarks c) :
    e.layer ∈ [Layer.closed, Layer.grid, Layer.frame, Layer.today] := by
  rw [calendarMarks, List.mem_append, List.mem_append, List.mem_append, List.mem_singleton] at he
  rcases he with ((he | he) | he) | rfl
  · exact List.mem_cons_of_mem _ (List.mem_append_left [Layer.today] (layer_of_columnMarks e he))
  · exact List.mem_append_left _ (layer_of_closedMarks e he)
  · simp [List.mem_singleton.mp (layer_of_frame e he)]
  · simp [todayMark]

theorem layer_of_rowMarks {y : Float} {row : Row} (he : e ∈ s.rowMarks y row) :
    e.layer ∈ [Layer.body, Layer.overlay] := by
  cases row with
  | header g =>
    simp only [rowMarks, headerMarks, List.mem_append, List.mem_cons, List.not_mem_nil,
      or_false] at he
    rcases he with ((rfl | rfl) | (rfl | rfl)) | rfl <;> simp
  | item i =>
    cases i with
    | task t =>
      simp only [rowMarks, taskMarks, planMarks, List.mem_append, List.mem_cons, List.not_mem_nil,
        or_false] at he
      rcases he with (rfl | rfl) | he
      · simp
      · simp
      · split at he
        · simp only [actualMarks, List.mem_append, List.mem_cons] at he
          rcases he with rfl | he | he
          · simp
          · split at he
            · simp only [List.mem_singleton] at he
              simp [he]
            · cases he
          · split at he
            · split at he
              · simp only [List.mem_singleton] at he
                simp [he]
              · cases he
            · cases he
        · cases he
    | milestone m =>
      simp only [rowMarks, milestoneMarks, List.mem_append, List.mem_cons, List.not_mem_nil,
        or_false, Option.mem_toList, Option.map_eq_some_iff] at he
      rcases he with (rfl | rfl) | ⟨_, _, rfl⟩ <;> simp

end Sheet

/-! ## Groups that hold the items -/

/-- What a row is for: the label of a group, or an item. -/
inductive RowLabel where
  | header (text : String)
  | item (name : String)

def Row.label : Row → RowLabel
  | header g => .header g.text
  | item i => .item i.name

/-- The rows that a group is to have: one for its text, unless it has none, and one for each
member. -/
def Group.labels (g : Group) : List RowLabel :=
  (if g.isLabeled then [.header g.text] else []) ++ g.member.map .item

namespace Schedule

/-- The groups of a schedule hold nothing but its items, and all of them; its paths join different
items. -/
structure Complete (s : Schedule) : Prop where
  nodup : (s.items.map ScheduleItem.name).Nodup
  known : ∀ g ∈ s.groups, ∀ name ∈ g.member, name ∈ s.items.map ScheduleItem.name
  placed : ∀ i ∈ s.items, ∃ g ∈ s.groups, i.name ∈ g.member
  joined : ∀ p ∈ s.paths, p.startName ∈ s.items.map ScheduleItem.name ∧
    p.endName ∈ s.items.map ScheduleItem.name ∧ p.startName ≠ p.endName

variable {s : Schedule} {i : ScheduleItem} {name : String} {n : Nat}

theorem exists_find? (h : name ∈ s.items.map ScheduleItem.name) :
    ∃ i, s.find? name = some i ∧ i.name = name := by
  obtain ⟨i, hi, hname⟩ := List.mem_map.mp h
  cases hfind : s.find? name with
  | none => exact absurd hname (by simpa using List.find?_eq_none.mp hfind i hi)
  | some j => exact ⟨j, rfl, by simpa using List.find?_some hfind⟩

theorem label_groupRows {g : Group}
    (h : ∀ name ∈ g.member, name ∈ s.items.map ScheduleItem.name) :
    (s.groupRows g).map Row.label = g.labels := by
  have hmembers (names : List String) (h : ∀ n ∈ names, n ∈ s.items.map ScheduleItem.name) :
      ((names.filterMap s.find?).map Row.item).map Row.label = names.map .item := by
    induction names with
    | nil => rfl
    | cons name rest ih =>
      obtain ⟨i, hi, rfl⟩ := exists_find? (h name List.mem_cons_self)
      rw [List.filterMap_cons_some hi, List.map_cons, List.map_cons, List.map_cons,
        ih fun n hn => h n (List.mem_cons_of_mem _ hn)]
      rfl
  rw [groupRows, List.map_append, hmembers _ h, Group.labels]
  split <;> rfl

namespace Complete

variable (h : s.Complete)
include h

theorem find?_name (hi : i ∈ s.items) : s.find? i.name = some i := by
  obtain ⟨j, hj, hname⟩ := exists_find? (List.mem_map_of_mem hi)
  rw [hj, List.inj_on_of_nodup_map h.nodup (List.mem_of_find?_eq_some hj) hi hname]

/-- No member is left out, so the rows are for what the groups list. -/
theorem label_rows : s.rows.map Row.label = s.groups.flatMap Group.labels := by
  rw [rows, List.map_flatMap]
  exact List.flatMap_congr fun g hg => label_groupRows (h.known g hg)

theorem length_rows : s.rows.length = Layout.rowCount s := by
  rw [← List.length_map Row.label, h.label_rows, Layout.rowCount, labeledGroupCount]
  generalize s.groups = groups
  induction groups with
  | nil => rfl
  | cons g rest ih =>
    have hlabels : g.labels.length = (if g.isLabeled then 1 else 0) + g.member.length := by
      rw [Group.labels, List.length_append, List.length_map]
      split <;> rfl
    rw [List.flatMap_cons, List.flatMap_cons, List.length_append, List.length_append, ih,
      List.countP_cons, hlabels]
    omega

theorem item_mem_rows : .item i ∈ s.rows ↔ i ∈ s.items := by
  rw [rows, List.mem_flatMap]
  constructor
  · rintro ⟨g, _, hrow⟩
    rw [groupRows, List.mem_append] at hrow
    rcases hrow with hrow | hrow
    · split at hrow
      · cases List.mem_singleton.mp hrow
      · cases hrow
    · obtain ⟨j, hj, ⟨⟩⟩ := List.mem_map.mp hrow
      obtain ⟨name, _, hfind⟩ := List.mem_filterMap.mp hj
      exact List.mem_of_find?_eq_some hfind
  · intro hi
    obtain ⟨g, hg, hmember⟩ := h.placed i hi
    refine ⟨g, hg, List.mem_append_right _ (List.mem_map_of_mem ?_)⟩
    exact List.mem_filterMap.mpr ⟨i.name, hmember, h.find?_name hi⟩

end Complete

/-! ## The row of an item -/

/-- The row with the number is one of the item with the name. -/
def HasRow (rows : List Row) (name : String) (n : Nat) : Prop :=
  ∃ row, rows[n]? = some row ∧ row.name? = some name

/-- The lowest of the rows of an item. -/
def LowestRow (rows : List Row) (name : String) (n : Nat) : Prop :=
  IsGreatest {m | HasRow rows name m} n

theorem lt_length_of_hasRow {rows : List Row} (h : HasRow rows name n) : n < rows.length := by
  obtain ⟨row, hrow, _⟩ := h
  exact (List.getElem?_eq_some_iff.mp hrow).1

theorem hasRow_concat {rows : List Row} {row : Row} : HasRow (rows ++ [row]) name n ↔
    HasRow rows name n ∨ (n = rows.length ∧ row.name? = some name) := by
  unfold HasRow
  rcases Nat.lt_trichotomy n rows.length with hlt | rfl | hgt
  · rw [List.getElem?_append_left hlt]
    simp [hlt.ne]
  · simp
  · rw [List.getElem?_eq_none (by simp; omega), List.getElem?_eq_none (by omega)]
    simp [hgt.ne']

/-- Looking from the bottom finds the lowest row. -/
theorem rowNumber?_eq_some_iff {rows : List Row} :
    rowNumber? rows.zipIdx.reverse name = some n ↔ LowestRow rows name n := by
  induction rows using List.reverseRecOn with
  | nil => simp [rowNumber?, LowestRow, IsGreatest, HasRow]
  | append_singleton rows row ih =>
    rw [List.zipIdx_append, List.reverse_append, rowNumber?]
    simp only [List.zipIdx_singleton, List.reverse_singleton, List.singleton_append,
      List.find?_cons, Nat.zero_add]
    by_cases hname : row.name? = some name
    · have hlast : LowestRow (rows ++ [row]) name rows.length := by
        refine ⟨hasRow_concat.mpr (.inr ⟨rfl, hname⟩), fun m hm => ?_⟩
        have hm := lt_length_of_hasRow hm
        rw [List.length_append, List.length_singleton] at hm
        omega
      simp only [hname, beq_self_eq_true, Option.map_some, Option.some.injEq]
      exact ⟨fun hn => hn ▸ hlast, hlast.unique⟩
    · have hsame : {m | HasRow (rows ++ [row]) name m} = {m | HasRow rows name m} := by
        ext m
        simp [hasRow_concat, hname]
      rw [beq_false_of_ne hname, LowestRow, hsame]
      exact ih

theorem Complete.exists_lowestRow (h : s.Complete)
    (hname : name ∈ s.items.map ScheduleItem.name) : ∃ n, LowestRow s.rows name n := by
  obtain ⟨i, hi, rfl⟩ := List.mem_map.mp hname
  obtain ⟨m, hm⟩ := List.getElem?_of_mem (h.item_mem_rows.mpr hi)
  have hrow : HasRow s.rows i.name m := ⟨_, hm, rfl⟩
  have hbound : BddAbove {m | HasRow s.rows i.name m} :=
    ⟨s.rows.length, fun m hm => (lt_length_of_hasRow hm).le⟩
  exact ⟨_, Nat.sSup_mem ⟨m, hrow⟩ hbound, fun k hk => le_csSup hbound hk⟩

/-- Items with different names have no row in common. -/
theorem LowestRow.ne {name' : String} {m : Nat} {rows : List Row} (h : LowestRow rows name m)
    (h' : LowestRow rows name' n) (hne : name ≠ name') : m ≠ n := by
  rintro rfl
  obtain ⟨row, hrow, hname⟩ := h.1
  obtain ⟨row', hrow', hname'⟩ := h'.1
  cases hrow.symm.trans hrow'
  exact hne (Option.some.inj (hname.symm.trans hname'))

/-! ## The drawing -/

/-- The arrow of a path from the lowest row of its first item to that of its second. -/
def ArrowOf (s : Schedule) (layout : Layout) (p : DependencyPath) (a : Primitive) : Prop :=
  ∃ m n, LowestRow s.rows p.startName m ∧ LowestRow s.rows p.endName n ∧
    a = (p.route layout (layout.rowY m) (layout.rowY n)).arrow p.id p.color

theorem forall₂_filterMap {α β : Type} {R : α → β → Prop} {f : α → Option β} {l : List α}
    (h : ∀ a ∈ l, ∃ b, R a b ∧ f a = some b) : List.Forall₂ R l (l.filterMap f) := by
  induction l with
  | nil => exact .nil
  | cons a rest ih =>
    obtain ⟨b, hb, hsome⟩ := h a List.mem_cons_self
    rw [List.filterMap_cons_some hsome]
    exact .cons hb (ih fun c hc => h c (List.mem_cons_of_mem _ hc))

/-- No path is left out. -/
theorem Complete.arrows (h : s.Complete) (layout : Layout) :
    List.Forall₂ (s.ArrowOf layout) s.paths (s.arrows layout s.numberedRows) := by
  refine forall₂_filterMap fun p hp => ?_
  obtain ⟨hstart, hend, _⟩ := h.joined p hp
  obtain ⟨m, hm⟩ := h.exists_lowestRow hstart
  obtain ⟨n, hn⟩ := h.exists_lowestRow hend
  refine ⟨_, ⟨m, n, hm, hn, rfl⟩, ?_⟩
  rw [DependencyPath.arrow?, numberedRows, rowNumber?_eq_some_iff.mpr hm,
    rowNumber?_eq_some_iff.mpr hn]
  rfl

variable {layer : Int} {config : ChartConfig}

theorem inLayer_drawing : (s.drawing config).inLayer layer =
    (s.marks ⟨config, .ofSchedule config s⟩).filter fun e => e.layer == layer :=
  Drawing.inLayer_sorted _ layer

theorem filter_layer_eq_nil {elements : List Element} {layers : List Int}
    (h : ∀ e ∈ elements, e.layer ∈ layers) (hl : layer ∉ layers) :
    (elements.filter fun e => e.layer == layer) = [] := by
  rw [List.filter_eq_nil_iff]
  intro e he heq
  exact hl (beq_iff_eq.mp heq ▸ h e he)

theorem layer_of_rows {sheet : Sheet} {rows : List (Row × Nat)} : ∀ e ∈ rows.flatMap fun row =>
    sheet.rowMarks (sheet.layout.rowY row.2) row.1, e.layer ∈ [Layer.body, Layer.overlay] := by
  intro e he
  obtain ⟨row, _, he⟩ := List.mem_flatMap.mp he
  exact Sheet.layer_of_rowMarks he

theorem layer_of_arrows {arrows : List Primitive} :
    ∀ e ∈ arrows.map fun a => (⟨Layer.path, a⟩ : Element), e.layer ∈ [Layer.path] := by
  simp

/-- The layers of the rows have nothing but the rows, one after the other. -/
theorem inLayer_rows (hl : layer ∈ [Layer.body, Layer.overlay]) :
    (s.drawing config).inLayer layer =
      s.rows.zipIdx.flatMap fun (row, n) =>
        (Sheet.rowMarks ⟨config, .ofSchedule config s⟩
          ((Layout.ofSchedule config s).rowY n) row).filter fun e => e.layer == layer := by
  have hcalendar : layer ∉ [Layer.closed, Layer.grid, Layer.frame, Layer.today] := by
    simp only [List.mem_cons, List.not_mem_nil, or_false] at hl
    rcases hl with rfl | rfl <;> decide
  have hpath : layer ∉ [Layer.path] := by
    simp only [List.mem_cons, List.not_mem_nil, or_false] at hl
    rcases hl with rfl | rfl <;> decide
  rw [inLayer_drawing, marks, List.filter_append, List.filter_append,
    filter_layer_eq_nil (fun e => Sheet.layer_of_calendarMarks) hcalendar,
    filter_layer_eq_nil layer_of_arrows hpath, List.nil_append, List.append_nil,
    List.filter_flatMap]
  rfl

/-- The layer of the paths has nothing but the arrows. -/
theorem inLayer_path : (s.drawing config).inLayer Layer.path =
    (s.arrows (.ofSchedule config s) s.numberedRows).map fun a => ⟨Layer.path, a⟩ := by
  rw [inLayer_drawing, marks, List.filter_append, List.filter_append,
    filter_layer_eq_nil (fun e => Sheet.layer_of_calendarMarks) (by decide),
    filter_layer_eq_nil layer_of_rows (by decide), List.nil_append, List.nil_append,
    List.filter_eq_self.mpr (by simp)]

end Schedule

/-! ## Resolved schedules -/

theorem DateExpr.From.reference?_eq {a : Assignment} {expr o : DateExpr} {name : String}
    {bound : Day} (h : o.From a name bound) (ho : expr.origin? = some o) :
    expr.reference? = some name := by
  cases expr with
  | startOf n => cases ho; cases h; rfl
  | endOf n => cases ho; cases h; rfl
  | _ => cases ho

theorem DateExpr.From.exists_days {a : Assignment} {o : DateExpr} {name : String} {bound : Day}
    (h : o.From a name bound) : ∃ q, a name = some q := by
  cases h with
  | startOf hq => exact ⟨_, hq⟩
  | endOf hq => exact ⟨_, hq⟩

/-- What a path leads from is a reference of the item it leads to. -/
theorem Entry.LeadsTo.reference {a : Assignment} {color : String} {e : Entry} {p : DependencyPath}
    (h : e.LeadsTo a color p) :
    p.endName = e.name ∧ ∃ r, e.range? = some r ∧ p.startName ∈ r.references := by
  cases h with
  | start hr _ ho hfrom =>
    obtain ⟨expr, hexpr, ho⟩ := Option.bind_eq_some_iff.mp ho
    obtain ⟨raw, hraw, hread⟩ := Option.bind_eq_some_iff.mp hexpr
    exact ⟨rfl, _, hr,
      PlanRange.mem_references.mpr ⟨raw, expr, .inl hraw, hread, hfrom.reference?_eq ho⟩⟩
  | finish hr _ ho hfrom =>
    unfold PlanRange.finishOrigin at ho
    split at ho
    · cases ho
    · obtain ⟨expr, hexpr, ho⟩ := Option.bind_eq_some_iff.mp ho
      obtain ⟨raw, hraw, hread⟩ := Option.bind_eq_some_iff.mp hexpr
      exact ⟨rfl, _, hr,
        PlanRange.mem_references.mpr ⟨raw, expr, .inr hraw, hread, hfrom.reference?_eq ho⟩⟩

theorem Entry.LeadsTo.exists_days {a : Assignment} {color : String} {e : Entry}
    {p : DependencyPath} (h : e.LeadsTo a color p) : ∃ q, a p.startName = some q := by
  cases h with
  | start _ _ _ hfrom => exact hfrom.exists_days
  | finish _ _ _ hfrom => exact hfrom.exists_days

namespace Document

variable {d : Document} {config : ChartConfig} {s : Schedule} {table : PlanTable}

/-- The item that a path leads to refers to the one that it leads from. -/
theorem ResolvesTo.refers_of_mem_paths (h : d.ResolvesTo config s table) {p : DependencyPath}
    (hp : p ∈ s.paths) : Entry.Refers d.entries p.endName p.startName := by
  obtain ⟨e, he, hleads⟩ := h.mem_paths.mp hp
  obtain ⟨hend, r, hr, hreference⟩ := hleads.reference
  obtain ⟨q, hq⟩ := hleads.exists_days
  rw [hend]
  exact Entry.refers_of_reference he hr hreference (List.mem_map.mpr (h.exists_entry_of_days hq))

/-- A name is in the group without text or in a declared one. -/
theorem exists_group_of_mem {names : List String} {name : String} (h : name ∈ names) :
    ∃ g ∈ d.scheduleGroups names, name ∈ g.member := by
  by_cases hplaced : name ∈ (d.groups.map fun g =>
      (⟨g.text, g.member.filter names.contains⟩ : Group)).flatMap Group.member
  · obtain ⟨g, hg, hmember⟩ := List.mem_flatMap.mp hplaced
    exact ⟨g, List.mem_cons_of_mem _ hg, hmember⟩
  · refine ⟨_, List.mem_cons_self, List.mem_filter.mpr ⟨h, ?_⟩⟩
    simpa using hplaced

theorem mem_of_mem_group {names : List String} {name : String} {g : Group}
    (hg : g ∈ d.scheduleGroups names) (hname : name ∈ g.member) : name ∈ names := by
  rcases List.mem_cons.mp hg with rfl | hg
  · exact (List.mem_filter.mp hname).1
  · obtain ⟨record, _, rfl⟩ := List.mem_map.mp hg
    exact List.contains_iff_mem.mp (List.mem_filter.mp hname).2

theorem ResolvesTo.complete (h : d.ResolvesTo config s table) : s.Complete where
  nodup := h.names_items ▸ h.nodup
  known g hg name hname := by
    rw [h.names_items]
    exact mem_of_mem_group (h.groups ▸ hg) hname
  placed i hi := by
    rw [h.groups]
    exact exists_group_of_mem (h.names_items ▸ List.mem_map_of_mem hi)
  joined p hp := by
    have hrefers := h.refers_of_mem_paths hp
    obtain ⟨e, he, hend, _⟩ := hrefers.1
    rw [h.names_items]
    refine ⟨hrefers.2, hend ▸ List.mem_map_of_mem he, fun hself => ?_⟩
    have hacyclic := h.acyclic
    rw [DependencyGraph.not_isCyclic_iff, Entry.dependsOn_graph] at hacyclic
    exact hacyclic p.endName (.single (by rwa [hself] at hrefers))

/-- The rows of a chart are for the labels of the groups and their members, in this order and
without leaving one out, each row drawn at its number. There are as many as the canvas has been
given room for, and every item has one. Every path has an arrow, in the order of the paths, between
the lowest rows of the items that it joins. -/
theorem drawing_rows (h : d.resolve config = .ok s) (chart : ChartConfig) :
    s.rows.map Row.label = s.groups.flatMap Group.labels ∧
    (∀ layer ∈ [Layer.body, Layer.overlay], (s.drawing chart).inLayer layer =
      s.rows.zipIdx.flatMap fun (row, n) =>
        (Sheet.rowMarks ⟨chart, .ofSchedule chart s⟩
          ((Layout.ofSchedule chart s).rowY n) row).filter fun e => e.layer == layer) ∧
    s.rows.length = Layout.rowCount s ∧
    (s.drawing chart).height =
      chart.rowHeight * Number.ofInt (Layout.headerRowsOf s.calendar.scale)
        + 2 * chart.rowHeight * Number.ofInt (s.rows.length + 1) ∧
    (∀ i, .item i ∈ s.rows ↔ i ∈ s.items) ∧
    List.Forall₂ (fun p e => e.layer = Layer.path ∧
        s.ArrowOf (.ofSchedule chart s) p e.primitive)
      s.paths ((s.drawing chart).inLayer Layer.path) := by
  obtain ⟨table, hr⟩ := resolve_eq_ok_iff.mp h
  have hcomplete := hr.complete
  refine ⟨hcomplete.label_rows, fun layer => Schedule.inLayer_rows, hcomplete.length_rows, ?_,
    fun i => hcomplete.item_mem_rows, ?_⟩
  · rw [hcomplete.length_rows]
    rfl
  · rw [Schedule.inLayer_path, List.forall₂_map_right_iff]
    exact (hcomplete.arrows _).imp fun p a ha => ⟨rfl, ha⟩

/-- The chart of the relay has four rows below its header and three arrows. -/
theorem relay_drawing_rows : ∃ s, relay.resolve .standard = .ok s ∧ s.rows.length = 4 ∧
    (∀ i, .item i ∈ s.rows ↔ i ∈ s.items) ∧
    ((s.drawing .standard).inLayer Layer.path).length = 3 := by
  have hcounts : (relay.resolve .standard).map (fun s => (Layout.rowCount s, s.paths.length)) =
      .ok (4, 3) := by cbv
  obtain ⟨s, hs, hcounts⟩ := Outcome.map_eq_ok.mp hcounts
  obtain ⟨hrows, hpaths⟩ := Prod.mk.inj hcounts
  obtain ⟨_, _, hlength, _, hitems, harrows⟩ := drawing_rows hs .standard
  exact ⟨s, hs, hlength.trans hrows, hitems, harrows.length_eq ▸ hpaths⟩

end Document

end GanttChart
