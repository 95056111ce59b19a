import GanttChart.Proofs.Calendar.Counting
import GanttChart.Proofs.Chart.Coordinates
import GanttChart.Proofs.Chart.Rows
import GanttChart.Proofs.Schedule.Derivations

/-! # Where arrows point

An arrow turns once, and its head is turned by where the items are: down the chart it points to the
right if the later item starts on a later day, and to the left if not. That is the way of the last
leg unless both ends are in the same column, where this leg ends on the right side. -/

namespace GanttChart

open Number

/-! ## Legs -/

theorem Course.degrees_injective : Function.Injective Course.degrees := by
  intro a b
  cases a <;> cases b <;> decide +kernel

/-- One point is reached from another by going straight in a direction. -/
inductive Point.Heads (a b : Point) : Course → Prop
  | right (hy : a.y = b.y) (hx : a.x < b.x) : a.Heads b .right
  | left (hy : a.y = b.y) (hx : b.x < a.x) : a.Heads b .left
  | down (hx : a.x = b.x) (hy : a.y < b.y) : a.Heads b .down
  | up (hx : a.x = b.x) (hy : b.y < a.y) : a.Heads b .up

def Point.IsFinite (p : Point) : Prop := isFinite p.x = true ∧ isFinite p.y = true

/-- There is but one way to go straight from a point to another. -/
theorem Point.Heads.iff_eq {a b : Point} {c c' : Course} (h : a.Heads b c) (ha : a.IsFinite)
    (hb : b.IsFinite) : a.Heads b c' ↔ c' = c := by
  have hx := not_lt_of_lt ha.1 hb.1
  have hy := not_lt_of_lt ha.2 hb.2
  have hx' := not_lt_of_lt ha.1 ha.1
  have hy' := not_lt_of_lt ha.2 ha.2
  refine ⟨fun h' => ?_, fun h' => h' ▸ h⟩
  cases h <;> cases h' <;> simp_all

namespace Route

/-- One leg is upright, the other level, and they meet in the corner. -/
def IsRightAngled (r : Route) : Prop :=
  (r.start.x = r.corner.x ∧ r.corner.y = r.finish.y) ∨
    (r.start.y = r.corner.y ∧ r.corner.x = r.finish.x)

def IsFinite (r : Route) : Prop := r.start.IsFinite ∧ r.corner.IsFinite ∧ r.finish.IsFinite

instance (r : Route) : Decidable r.IsFinite :=
  inferInstanceAs (Decidable ((_ ∧ _) ∧ (_ ∧ _) ∧ _ ∧ _))

theorem isRightAngled_between (l : Layout) (source target : Point) (forward : Bool) :
    (between l source target forward).IsRightAngled := by
  unfold between
  split
  · exact .inl ⟨rfl, rfl⟩
  · exact .inr ⟨rfl, rfl⟩

end Route

namespace DependencyPath

variable {p : DependencyPath} {l : Layout} {m n : ℕ} {r : Route}

/-- The last leg goes the way of the arrowhead, unless the arrow goes down the chart to an item on
the same day. -/
theorem exists_heads_route {rows : ℕ} (hl : l.Spacious rows) (hheader : l.headerRows ≤ 3)
    (hm : m < rows) (hn : n < rows) (hne : m ≠ n) (hr : r = p.route l (l.rowY m) (l.rowY n))
    (hfinite : r.IsFinite) :
    ∃ c, r.corner.Heads r.finish c ∧
      (r.arrival = c ↔ ¬ (m < n ∧ p.startDay = p.endDay)) := by
  unfold route Route.between at hr
  dsimp only at hr
  by_cases hdown : l.rowY m < l.rowY n
  · rw [if_pos hdown] at hr
    subst hr
    obtain ⟨⟨hmiddle, hbottom⟩, ⟨_, hlevel⟩, ⟨hside, _⟩⟩ := hfinite
    have htop := (isFinite_of_add hbottom).1
    have htop' := (isFinite_of_add hlevel).1
    have hlt : m < n := by
      by_contra hge
      exact not_lt_of_lt htop htop' hdown
        (Layout.rowY_lt_rowY hl hheader hn hm htop' htop (by omega))
    by_cases hforward : p.startDay < p.endDay
    · simp only [hforward, decide_true, if_true] at hside ⊢
      refine ⟨.right, .right rfl (Layout.middle_lt_x hl.column hmiddle hside hforward), ?_⟩
      exact iff_of_true rfl fun h => Int.ne_of_lt hforward (congrArg Day.number h.2)
    · simp only [hforward, decide_false, Bool.false_eq_true, if_false] at hside ⊢
      by_cases hback : p.endDay < p.startDay
      · refine ⟨.left, .left rfl (Layout.right_lt_middle hl.column hmiddle hside hback), ?_⟩
        exact iff_of_true rfl fun h => Int.ne_of_gt hback (congrArg Day.number h.2)
      · have hsame : p.startDay = p.endDay :=
          Day.ext (Int.le_antisymm (Int.not_lt.mp hback) (Int.not_lt.mp hforward))
        rw [hsame] at hmiddle ⊢
        refine ⟨.right, .right rfl (Layout.middle_lt_right hl.column hmiddle hside), ?_⟩
        exact iff_of_false nofun (not_not_intro ⟨hlt, rfl⟩)
  · rw [if_neg hdown] at hr
    subst hr
    obtain ⟨⟨_, hlevel⟩, _, ⟨_, hbottom⟩⟩ := hfinite
    have htop := (isFinite_of_add hlevel).1
    have htop' := (isFinite_of_add hbottom).1
    have hlt : n < m := by
      by_contra hge
      exact hdown (Layout.rowY_lt_rowY hl hheader hm hn htop htop' (by omega))
    refine ⟨.up, .up rfl (Layout.bottom_lt_middle hl hheader hn hm hbottom hlevel hlt), ?_⟩
    exact iff_of_true rfl fun h => absurd h.1 hlt.not_gt

end DependencyPath

/-! ## Days -/

namespace WorkCalendar

variable {calendar : WorkCalendar} {d e : Day} {count : Int}

/-- A step leads to another day just if it has more than one business day. -/
theorem step?_eq_self_iff (h : calendar.step? d count = some e) : d = e ↔ count.natAbs ≤ 1 := by
  constructor
  · rintro rfl
    by_contra hlong
    rcases Int.lt_or_le count 0 with hneg | hpos
    · exact Int.lt_irrefl _ (step?_backward h (by omega)).2.1
    · exact Int.lt_irrefl _ (step?_forward h (by omega)).2.1
  · intro hshort
    rw [step?_of_natAbs_le_one hshort] at h
    exact Option.some.inj h

end WorkCalendar

namespace Document

variable {d : Document} {config : ChartConfig} {s : Schedule} {table : PlanTable}

/-- A path joins one day to itself just if the gap is shorter than two days. -/
theorem ResolvesTo.startDay_eq_endDay_iff (h : d.ResolvesTo config s table) {p : DependencyPath}
    (hp : p ∈ s.paths) : p.startDay = p.endDay ↔ config.dependencyGapDays.natAbs ≤ 1 := by
  obtain ⟨e, he, side, source, name, q, q', hd, hq, hq', rfl⟩ := h.mem_paths_iff.mp hp
  obtain ⟨_, _, hp, hp', hstep⟩ := h.exists_step? he hd
  cases hp.symm.trans hq
  cases hp'.symm.trans hq'
  rw [WorkCalendar.step?_eq_self_iff hstep, Bound.natAbs_offset]

/-- Every arrow has an upright and a level leg. Its head points the way of the last leg, unless the
arrow goes down the chart and the gap is shorter than two days; this is for coordinates that keep
their order and have not grown beyond all numbers. -/
theorem arrow_head_iff (h : d.resolve config = .ok s) (chart : ChartConfig) :
    List.Forall₂ (fun p e => ∃ m n r, Schedule.LowestRow s.rows p.startName m ∧
        Schedule.LowestRow s.rows p.endName n ∧
        r = p.route (.ofSchedule chart s) ((Layout.ofSchedule chart s).rowY m)
          ((Layout.ofSchedule chart s).rowY n) ∧
        e = ⟨Layer.path, r.arrow p.id p.color⟩ ∧ r.IsRightAngled ∧
        ((Layout.ofSchedule chart s).Spacious s.rows.length → r.IsFinite →
          ∃ c, (∀ c', r.corner.Heads r.finish c' ↔ c' = c) ∧ (r.arrival.degrees = c.degrees ↔
            ¬ (m < n ∧ config.dependencyGapDays.natAbs ≤ 1))))
      s.paths ((s.drawing chart).inLayer Layer.path) := by
  obtain ⟨table, hr⟩ := resolve_eq_ok_iff.mp h
  have hcomplete := hr.complete
  rw [Schedule.inLayer_path, List.forall₂_map_right_iff]
  have harrows := List.forall₂_iff_zip.mp (hcomplete.arrows (.ofSchedule chart s))
  refine List.forall₂_iff_zip.mpr ⟨harrows.1, fun hmem => ?_⟩
  obtain ⟨m, n, hm, hn, rfl⟩ := harrows.2 hmem
  have hp := (List.of_mem_zip hmem).1
  have hne := hm.ne hn (hcomplete.joined _ hp).2.2
  have hmlt := Schedule.lt_length_of_hasRow hm.1
  have hnlt := Schedule.lt_length_of_hasRow hn.1
  have hheader := Layout.headerRows_ofSchedule_le chart s
  refine ⟨m, n, _, hm, hn, rfl, rfl, Route.isRightAngled_between _ _ _ _, fun hl hfinite => ?_⟩
  obtain ⟨c, hheads, hway⟩ :=
    DependencyPath.exists_heads_route hl hheader hmlt hnlt hne rfl hfinite
  refine ⟨c, fun _ => hheads.iff_eq hfinite.2.1 hfinite.2.2, ?_⟩
  rw [Course.degrees_injective.eq_iff, hway, hr.startDay_eq_endDay_iff hp]

/-! ## Two tasks, one after the other -/

/-- A task that starts after another one, in the row below it. -/
def succession : Document :=
  .april [.spanning "plan" "2020/4/2" "2020/4/10", .spanning "build" "plan's end" "2020/4/20"] []

/-- The settings with a gap of one day, which is none. -/
def gapless : ChartConfig := { ChartConfig.standard with dependencyGapDays := 1 }

/-- The day on which planning ends, 10 April 2020. -/
def succession.planned : Day := ⟨18362, by decide, by decide⟩

/-- The path from the end of planning to the start of building. -/
def succession.path (day : Day) : DependencyPath := ⟨"plan", planned, "build", day, "blue"⟩

/-- The first day of the project, 1 April 2020. -/
def succession.first : Day := ⟨18353, by decide, by decide⟩

/-- April is drawn with a header of three rows, and two rows below. -/
def succession.layout : Layout where
  start := first
  columnWidth := 16
  rowHeight := 16
  headerRows := 3
  width := 16 * ofInt 30
  height := 16 * ofInt 3 + 2 * 16 * ofInt 3

/-- The route of that path, from the upper to the lower row. -/
def succession.route (day : Day) : Route :=
  (succession.path day).route succession.layout (succession.layout.rowY 0)
    (succession.layout.rowY 1)

/-- A chart of the two tasks with an arrow from the upper to the lower row. -/
structure succession.Shown (s : Schedule) (day : Day) : Prop where
  rows : s.rows.map Row.name? = [some "plan", some "build"]
  paths : s.paths = [succession.path day]
  layout : Layout.ofSchedule .standard s = succession.layout

theorem succession.exists_shown {config : ChartConfig} {day : Day}
    (h : (succession.resolve config).map (fun s => (s.rows.map Row.name?, s.paths,
      s.calendar.start, s.calendar.scale, s.calendar.dayCount, Layout.rowCount s)) =
        .ok ([some "plan", some "build"], [succession.path day], succession.first, .daily,
          30, 2)) : ∃ s, succession.resolve config = .ok s ∧ succession.Shown s day := by
  obtain ⟨s, hs, hparts⟩ := Outcome.map_eq_ok.mp h
  simp only [Prod.mk.injEq] at hparts
  obtain ⟨hrows, hpaths, hstart, hscale, hdays, hcount⟩ := hparts
  refine ⟨s, hs, hrows, hpaths, ?_⟩
  simp only [Layout.ofSchedule, hstart, hscale, hdays, hcount]
  rfl

theorem succession.Shown.lowestRow {s : Schedule} {day : Day} {m n : ℕ}
    (h : succession.Shown s day) (hm : Schedule.LowestRow s.rows "plan" m)
    (hn : Schedule.LowestRow s.rows "build" n) : m = 0 ∧ n = 1 := by
  have hname {name : String} {k : ℕ} (hk : Schedule.LowestRow s.rows name k) :
      [some "plan", some "build"][k]? = some (some name) := by
    obtain ⟨row, hrow, hname⟩ := hk.1
    rw [← h.rows, List.getElem?_map, hrow, Option.map_some, hname]
  have hm := hname hm
  have hn := hname hn
  rcases m with _ | _ | m <;> rcases n with _ | _ | n <;> simp_all

theorem exists_resolve_succession : ∃ s, succession.resolve .standard = .ok s ∧
    succession.Shown s ⟨18364, by decide, by decide⟩ :=
  succession.exists_shown (by cbv)

theorem exists_resolve_gapless : ∃ s, succession.resolve gapless = .ok s ∧
    succession.Shown s succession.planned :=
  succession.exists_shown (by cbv)

/-- The arrow between the two tasks points to the right, where its last leg goes. -/
theorem succession_arrow_head : ∃ s, succession.resolve .standard = .ok s ∧
    ∃ (p : DependencyPath) (r : Route) (c : Course), s.paths = [p] ∧
      (s.drawing .standard).inLayer Layer.path = [⟨Layer.path, r.arrow p.id p.color⟩] ∧
      r.IsRightAngled ∧ r.corner.Heads r.finish c ∧ r.arrival.degrees = c.degrees := by
  obtain ⟨s, hs, hshown⟩ := exists_resolve_succession
  have harrows := arrow_head_iff hs .standard
  rw [hshown.paths, List.forall₂_cons_left_iff] at harrows
  obtain ⟨e, rest, ⟨m, n, r, hm, hn, hr, rfl, hright, hheads⟩, hrest, hlayer⟩ := harrows
  cases hrest
  obtain ⟨rfl, rfl⟩ := hshown.lowestRow hm hn
  have hlength : s.rows.length = 2 := by rw [← List.length_map Row.name?, hshown.rows]; rfl
  have hspacious : (Layout.ofSchedule .standard s).Spacious s.rows.length := by
    rw [hshown.layout, hlength]
    exact ⟨by decide +kernel, by decide +kernel, by decide⟩
  have hfinite : r.IsFinite := by
    rw [hr, hshown.layout]
    decide +kernel
  obtain ⟨c, hc, hiff⟩ := hheads hspacious hfinite
  exact ⟨s, hs, _, r, c, hshown.paths, hlayer, hright, (hc c).mpr rfl,
    hiff.mpr fun h => absurd h.2 (by decide)⟩

/-- Without a gap the last leg goes to the right as well, but the head is turned to the left. -/
theorem exists_head_turned_away : ∃ s, succession.resolve gapless = .ok s ∧
    0 < gapless.rowHeight ∧ 0 < gapless.dailyColumnWidth ∧ 0 < gapless.weeklyColumnWidth ∧
    ∃ (p : DependencyPath) (r : Route), s.paths = [p] ∧
      (s.drawing gapless).inLayer Layer.path = [⟨Layer.path, r.arrow p.id p.color⟩] ∧
      r.IsFinite ∧ r.corner.Heads r.finish .right ∧
      r.arrival.degrees = 180 ∧ r.arrival.degrees ≠ Course.right.degrees := by
  obtain ⟨s, hs, hshown⟩ := exists_resolve_gapless
  obtain ⟨table, hr⟩ := resolve_eq_ok_iff.mp hs
  have hlayout : Layout.ofSchedule gapless s = succession.layout := hshown.layout
  have harrows := hr.complete.arrows succession.layout
  rw [hshown.paths, List.forall₂_cons_left_iff] at harrows
  obtain ⟨a, rest, ⟨m, n, hm, hn, rfl⟩, hrest, harrow⟩ := harrows
  cases hrest
  obtain ⟨rfl, rfl⟩ := hshown.lowestRow hm hn
  refine ⟨s, hs, by decide +kernel, by decide +kernel, by decide +kernel, _,
    succession.route succession.planned, hshown.paths, ?_, by decide +kernel,
    .right (by decide +kernel) (by decide +kernel), by decide +kernel, by decide +kernel⟩
  rw [Schedule.inLayer_path, hlayout, harrow]
  rfl

end Document

end GanttChart
