import GanttChart.Proofs.Chart.Rows
import GanttChart.Proofs.Drawing.Ids
import GanttChart.Proofs.Schedule.Derivations
import GanttChart.Proofs.Schedule.Listing

/-! # Ids of arrows

Besides the arrowhead only arrows have ids, made of the names of the two items that they join. So
two arrows have one id where they join the same items, or where the text between the names can also
be found inside of them. -/

namespace GanttChart

/-! ## Names with a separator -/

section Separated

variable {front back front' back' : String}

/-- Two pairs of names give one text with `-to-` between them, in which this separator stands twice:
the later place is behind the earlier one, or both share a dash. -/
inductive Ambiguous (front back front' back' : String) : Prop
  | apart (middle : String) (hfront : front' = front ++ "-to-" ++ middle)
      (hback : back = middle ++ "-to-" ++ back') : Ambiguous front back front' back'
  | overlapping (hfront : front' = front ++ "-to") (hback : back = "to-" ++ back') :
      Ambiguous front back front' back'

theorem Ambiguous.eq (h : Ambiguous front back front' back') :
    front ++ "-to-" ++ back = front' ++ "-to-" ++ back' := by
  cases h with
  | apart middle hfront hback =>
    rw [hfront, hback]
    simp only [String.append_assoc]
  | overlapping hfront hback =>
    rw [hfront, hback, ← String.toList_inj]
    simp

/-- The later place has more in front of it. -/
theorem Ambiguous.ne (h : Ambiguous front back front' back') : front ≠ front' := by
  rintro rfl
  cases h with
  | apart middle hfront _ => simpa using congrArg String.toList hfront
  | overlapping hfront _ => simpa using congrArg String.toList hfront

/-- What lies between two places of the separator is nothing, a part that the separator ends as well
as it begins it, or a part that begins with all of it. -/
theorem ambiguous_of_append {middle : List Char} (hfront : front'.toList = front.toList ++ middle)
    (hback : "-to-".toList ++ back.toList = middle ++ ("-to-".toList ++ back'.toList)) :
    (front = front' ∧ back = back') ∨ Ambiguous front back front' back' := by
  have hsep : "-to-".toList = ['-', 't', 'o', '-'] := rfl
  rw [hsep] at hback
  rcases middle with _ | ⟨a, _ | ⟨b, _ | ⟨c, _ | ⟨d, rest⟩⟩⟩⟩
  · have hfront : front = front' := by simpa [String.toList_inj] using hfront.symm
    have hback : back = back' := by simpa [String.toList_inj] using hback
    exact .inl ⟨hfront, hback⟩
  · simp at hback
  · simp at hback
  · simp only [List.cons_append, List.nil_append, List.cons.injEq] at hback
    obtain ⟨rfl, rfl, rfl, -, hback⟩ := hback
    refine .inr (.overlapping ?_ ?_)
    · rw [← String.toList_inj, hfront, String.toList_append]
      rfl
    · rw [← String.toList_inj, hback, String.toList_append]
      rfl
  · simp only [List.cons_append, List.nil_append, List.cons.injEq] at hback
    obtain ⟨rfl, rfl, rfl, rfl, hback⟩ := hback
    refine .inr (.apart (String.ofList rest) ?_ ?_)
    · rw [← String.toList_inj, hfront]
      simp
    · rw [← String.toList_inj, hback]
      simp

theorem separated_eq_iff : front ++ "-to-" ++ back = front' ++ "-to-" ++ back' ↔
    (front = front' ∧ back = back') ∨ Ambiguous front back front' back' ∨
      Ambiguous front' back' front back := by
  constructor
  · intro h
    have hlists := congrArg String.toList h
    simp only [String.toList_append, List.append_assoc] at hlists
    rcases List.append_eq_append_iff.mp hlists with ⟨middle, hf, hb⟩ | ⟨middle, hf, hb⟩
    · exact (ambiguous_of_append hf hb).imp_right .inl
    · exact (ambiguous_of_append hf hb).imp (fun h => ⟨h.1.symm, h.2.symm⟩) .inr
  · rintro (⟨rfl, rfl⟩ | h | h)
    · rfl
    · exact h.eq
    · exact h.eq.symm

end Separated

/-! ## Elements with ids -/

@[simp] theorem Element.ids_mk (layer : Int) (p : Primitive) :
    (⟨layer, p⟩ : Element).ids = p.ids := rfl

namespace Sheet

variable {s : Sheet} {e : Element} {c : WorkCalendar} {d : Day}

theorem ids_monthMarks : ∀ e ∈ s.monthMarks c d, e.ids = [] := by
  simp [monthMarks, gridLine]

theorem ids_dayMarks : ∀ e ∈ s.dayMarks c d, e.ids = [] := by
  unfold dayMarks
  cases c.scale with
  | daily => simp [columnLine, gridLine]
  | weekly => by_cases h : d.weekday = .monday <;> simp [h, columnLine, gridLine]

theorem ids_calendarMarks (he : e ∈ s.calendarMarks c) : e.ids = [] := by
  rw [calendarMarks, List.mem_append, List.mem_append, List.mem_append, List.mem_singleton] at he
  rcases he with ((he | he) | he) | rfl
  · obtain ⟨d, _, he⟩ := mem_columnMarks he
    exact he.elim (ids_monthMarks e) (ids_dayMarks e)
  · obtain ⟨d, _, rfl⟩ := List.mem_map.mp he
    simp [closedMark]
  · have hframe : ∀ e ∈ s.frame, e.ids = [] := by simp [frame, gridLine]
    exact hframe e he
  · simp [todayMark]

theorem ids_actualMarks {t : Task} {start finish : Day} {y : Float} :
    ∀ e ∈ s.actualMarks t start finish y, e.ids = [] := by
  unfold actualMarks
  cases t.actualCompleted <;> cases t.actualProgress <;> simp

theorem ids_rowMarks {y : Float} {row : Row} (he : e ∈ s.rowMarks y row) : e.ids = [] := by
  cases row with
  | header g =>
    have hheader : ∀ e ∈ s.headerMarks g y, e.ids = [] := by simp [headerMarks]
    exact hheader e he
  | item i =>
    cases i with
    | task t =>
      rcases List.mem_append.mp he with he | he
      · have hplan : ∀ e ∈ s.planMarks t y, e.ids = [] := by simp [planMarks]
        exact hplan e he
      · split at he
        · exact ids_actualMarks e he
        · cases he
    | milestone m =>
      have hmilestone : ∀ e ∈ s.milestoneMarks m y, e.ids = [] := by
        cases h : m.actualDay <;> simp [milestoneMarks, h]
      exact hmilestone e he

end Sheet

/-- Where only one layer has elements with ids, its ids are all of them. -/
theorem Drawing.flatMap_ids_inLayer {d : Drawing} {layer : Int}
    (h : ∀ e ∈ d.elements, e.layer ≠ layer → e.ids = []) :
    (d.inLayer layer).flatMap Element.ids = d.elements.flatMap Element.ids := by
  unfold inLayer
  generalize d.elements = elements at h
  induction elements with
  | nil => rfl
  | cons e rest ih =>
    have hrest := ih fun e he => h e (List.mem_cons_of_mem _ he)
    by_cases he : e.layer = layer
    · rw [List.filter_cons_of_pos (by simpa using he), List.flatMap_cons, List.flatMap_cons, hrest]
    · rw [List.filter_cons_of_neg (by simpa using he), List.flatMap_cons,
        h e List.mem_cons_self he, hrest, List.nil_append]

/-- An arrow is a group with its id around groups and lines without one. -/
theorem Route.ids_arrow (r : Route) (id color : String) : (r.arrow id color).ids = [id] := by
  simp [arrow]

namespace Schedule

variable {s : Schedule}

theorem ids_marks {sheet : Sheet} {e : Element} (he : e ∈ s.marks sheet)
    (hl : e.layer ≠ Layer.path) : e.ids = [] := by
  rw [marks, List.mem_append, List.mem_append] at he
  rcases he with (he | he) | he
  · exact Sheet.ids_calendarMarks he
  · obtain ⟨row, _, he⟩ := List.mem_flatMap.mp he
    exact Sheet.ids_rowMarks he
  · exact absurd (List.mem_singleton.mp (layer_of_arrows e he)) hl

/-- The ids among the elements of a chart are those of its paths, in their order. -/
theorem Complete.flatMap_ids (h : s.Complete) (chart : ChartConfig) :
    (s.drawing chart).elements.flatMap Element.ids = s.paths.map DependencyPath.id := by
  have hmarks : ∀ e ∈ (s.drawing chart).elements, e.layer ≠ Layer.path → e.ids = [] := by
    intro e he hl
    exact ids_marks ((Drawing.elements_sorted_perm _).mem_iff.mp he) hl
  rw [← Drawing.flatMap_ids_inLayer hmarks, inLayer_path, List.flatMap_map]
  have harrows := h.arrows (.ofSchedule chart s)
  generalize s.arrows (.ofSchedule chart s) s.numberedRows = arrows at harrows
  generalize s.paths = paths at harrows
  induction harrows with
  | nil => rfl
  | cons harrow _ ih =>
    obtain ⟨m, n, _, _, rfl⟩ := harrow
    rw [List.flatMap_cons, ih, Element.ids_mk, Route.ids_arrow, List.map_cons]
    rfl

/-- The text of a chart has the id of the arrowhead, and then one for each path. -/
theorem Complete.exists_ids_svg (h : s.Complete) (chart : ChartConfig) :
    ∃ root, Markup.read? (s.drawing chart).svg = some root ∧
      root.ids = arrowheadId :: s.paths.map DependencyPath.id := by
  obtain ⟨root, hroot, hids⟩ := (s.drawing chart).exists_read?_svg
  refine ⟨root, hroot, ?_⟩
  have hsymbols : (s.drawing chart).symbols.flatMap Primitive.ids = [arrowheadId] := by
    simp [drawing, Drawing.sorted, arrowhead]
  rw [hids, hsymbols, h.flatMap_ids, List.singleton_append]

end Schedule

/-! ## Paths with one id -/

namespace DependencyPath

variable {x y : DependencyPath}

theorem id_eq_iff : x.id = y.id ↔ (x.startName = y.startName ∧ x.endName = y.endName) ∨
    Ambiguous x.startName x.endName y.startName y.endName ∨
      Ambiguous y.startName y.endName x.startName x.endName := by
  rw [← separated_eq_iff, id, id, String.append_assoc, String.append_assoc, String.append_assoc,
    String.append_assoc, String.append_right_inj, ← String.append_assoc, ← String.append_assoc]

theorem id_ne_arrowheadId (x : DependencyPath) : x.id ≠ arrowheadId := by
  intro h
  have hfirst := congrArg (fun id : String => id.toList.head?) h
  simp [id, arrowheadId] at hfirst

/-- Different paths have different ids just if no two of them join the same items, and no two have
names that are ambiguous. -/
theorem nodup_ids_iff {paths : List DependencyPath} (h : paths.Nodup) :
    (paths.map DependencyPath.id).Nodup ↔
      (∀ x ∈ paths, ∀ y ∈ paths,
        x.startName = y.startName → x.endName = y.endName → x = y) ∧
      ∀ x ∈ paths, ∀ y ∈ paths,
        ¬ Ambiguous x.startName x.endName y.startName y.endName := by
  rw [List.nodup_map_iff_inj_on h]
  constructor
  · intro hinj
    refine ⟨fun x hx y hy hstart hend => ?_, fun x hx y hy hambiguous => ?_⟩
    · exact hinj x hx y hy (id_eq_iff.mpr (.inl ⟨hstart, hend⟩))
    · have heq := hinj x hx y hy (id_eq_iff.mpr (.inr (.inl hambiguous)))
      exact hambiguous.ne (congrArg startName heq)
  · rintro ⟨hnames, hclear⟩ x hx y hy hid
    rcases id_eq_iff.mp hid with ⟨hstart, hend⟩ | h | h
    · exact hnames x hx y hy hstart hend
    · exact absurd h (hclear x hx y hy)
    · exact absurd h (hclear y hy x hx)

end DependencyPath

namespace Document

variable {d : Document} {config : ChartConfig} {s : Schedule} {table : PlanTable}

/-- The ids of the paths give those of the text. -/
theorem exists_ids_of_paths {ids : List String}
    (h : (d.resolve config).map (fun s => s.paths.map DependencyPath.id) = .ok ids)
    (chart : ChartConfig) : ∃ s root, d.resolve config = .ok s ∧
      Markup.read? (s.drawing chart).svg = some root ∧ root.ids = arrowheadId :: ids := by
  obtain ⟨s, hs, rfl⟩ := Outcome.map_eq_ok.mp h
  obtain ⟨table, hr⟩ := resolve_eq_ok_iff.mp hs
  obtain ⟨root, hroot, hids⟩ := hr.complete.exists_ids_svg chart
  exact ⟨s, root, hs, hroot, hids⟩

theorem ResolvesTo.ambiguous_iff (h : d.ResolvesTo config s table) :
    (∀ x ∈ s.paths, ∀ y ∈ s.paths, ¬ Ambiguous x.startName x.endName y.startName y.endName) ↔
    ∀ e ∈ d.entries, ∀ f ∈ d.entries, ∀ side source name side' source' name',
      e.Derives side source name → f.Derives side' source' name' →
        ¬ Ambiguous name e.name name' f.name := by
  constructor
  · intro hclear e he f hf side source name side' source' name' hd hd'
    obtain ⟨q, p, hq, hp, -⟩ := h.exists_step? he hd
    obtain ⟨q', p', hq', hp', -⟩ := h.exists_step? hf hd'
    have hx := h.mem_paths_iff.mpr ⟨e, he, side, source, name, q, p, hd, hq, hp, rfl⟩
    have hy := h.mem_paths_iff.mpr ⟨f, hf, side', source', name', q', p', hd', hq', hp', rfl⟩
    exact hclear _ hx _ hy
  · intro hclear x hx y hy
    obtain ⟨e, he, side, source, name, q, p, hd, -, -, rfl⟩ := h.mem_paths_iff.mp hx
    obtain ⟨f, hf, side', source', name', q', p', hd', -, -, rfl⟩ := h.mem_paths_iff.mp hy
    exact hclear e he f hf side source name side' source' name' hd hd'

/-- The text of the chart has the id of the arrowhead once and an id for each path. They are all
different if and only if no item derives its two bounds from the two bounds of another item (except
from a single day with a gap shorter than two days, which makes one path), and no two pairs of an
item and one that it is derived from have ambiguous names. -/
theorem svg_ids_nodup_iff (h : d.resolve config = .ok s) (chart : ChartConfig) :
    ∃ a : Assignment, a.Solves s.calendar config.dependencyGapDays d.entries ∧
    ∃ root, Markup.read? (s.drawing chart).svg = some root ∧
      root.ids = arrowheadId :: s.paths.map DependencyPath.id ∧
      arrowheadId ∉ s.paths.map DependencyPath.id ∧
      (root.ids.Nodup ↔
        (∀ e ∈ d.entries, ∀ source source' name,
          e.Derives .start source name → e.Derives .finish source' name → source = source' ∨
            (config.dependencyGapDays.natAbs ≤ 1 ∧ ∃ q, a name = some q ∧ q.start = q.finish)) ∧
        ∀ e ∈ d.entries, ∀ f ∈ d.entries, ∀ side source name side' source' name',
          e.Derives side source name → f.Derives side' source' name' →
            ¬ Ambiguous name e.name name' f.name) := by
  obtain ⟨table, hr⟩ := resolve_eq_ok_iff.mp h
  obtain ⟨root, hroot, hids⟩ := hr.complete.exists_ids_svg chart
  have harrowhead : arrowheadId ∉ s.paths.map DependencyPath.id := by
    intro hmem
    obtain ⟨x, _, hx⟩ := List.mem_map.mp hmem
    exact x.id_ne_arrowheadId hx
  have hnodup : s.paths.Nodup := hr.paths ▸ nodup_eraseDups _
  refine ⟨table.days, hr.solves, root, hroot, hids, harrowhead, ?_⟩
  rw [hids, List.nodup_cons, and_iff_right harrowhead, DependencyPath.nodup_ids_iff hnodup,
    hr.paths_unique_iff, hr.ambiguous_iff]

/-- A task that goes from the start to the end of a milestone, and one after it. -/
def launch : Document :=
  .april
    [.spanning "watch" "go-to-market's start" "go-to-market's end",
      .spanning "sell" "watch's end" "2020/4/20"]
    [{ MilestoneRecord.named "go-to-market" with plan := some (.point "2020/4/8") }]

/-- Without a gap the milestone gives both days of the task at once, which makes one path. Its own
name has the separator in it, but no pair of names is ambiguous. -/
theorem launch_ids_nodup : ∃ s root,
    launch.resolve { ChartConfig.standard with dependencyGapDays := 1 } = .ok s ∧
    Markup.read? (s.drawing .standard).svg = some root ∧
    root.ids = ["arrowhead", "path-go-to-market-to-watch", "path-watch-to-sell"] ∧
    root.ids.Nodup := by
  have hpaths : (launch.resolve { ChartConfig.standard with dependencyGapDays := 1 }).map
      (fun s => s.paths.map DependencyPath.id) =
        .ok ["path-go-to-market-to-watch", "path-watch-to-sell"] := by cbv
  obtain ⟨s, hs, hpaths⟩ := Outcome.map_eq_ok.mp hpaths
  obtain ⟨_, _, root, hroot, hids, _⟩ := svg_ids_nodup_iff hs .standard
  rw [hpaths] at hids
  exact ⟨s, root, hs, hroot, hids, by rw [hids]; decide⟩

/-- Two pairs of tasks, one after the other in each pair, with the same words in the same order. -/
def stepwise : Document :=
  .april
    [.spanning "dig" "2020/4/2" "2020/4/3",
      .spanning "lay-to-cap" "dig's end" "2020/4/20",
      .spanning "dig-to-lay" "2020/4/2" "2020/4/6",
      .spanning "cap" "dig-to-lay's end" "2020/4/20"]
    []

/-- With a gap there are two arrows from the milestone to the task, and they have one id. So have
the arrows of the two pairs of tasks. -/
theorem exists_ids_repeated :
    (∃ s root, launch.resolve .standard = .ok s ∧
      Markup.read? (s.drawing .standard).svg = some root ∧ ¬ root.ids.Nodup) ∧
    ∃ s root, stepwise.resolve .standard = .ok s ∧
      Markup.read? (s.drawing .standard).svg = some root ∧ ¬ root.ids.Nodup := by
  have hlaunch : (launch.resolve .standard).map (fun s => s.paths.map DependencyPath.id) =
      .ok ["path-go-to-market-to-watch", "path-go-to-market-to-watch", "path-watch-to-sell"] := by
    cbv
  have hstepwise : (stepwise.resolve .standard).map (fun s => s.paths.map DependencyPath.id) =
      .ok ["path-dig-to-lay-to-cap", "path-dig-to-lay-to-cap"] := by
    cbv
  constructor
  · obtain ⟨s, root, hs, hroot, hids⟩ := exists_ids_of_paths hlaunch .standard
    exact ⟨s, root, hs, hroot, by rw [hids]; decide⟩
  · obtain ⟨s, root, hs, hroot, hids⟩ := exists_ids_of_paths hstepwise .standard
    exact ⟨s, root, hs, hroot, by rw [hids]; decide⟩

end Document

end GanttChart
