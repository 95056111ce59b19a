import GanttChart.Proofs.Calendar.Elapsed
import GanttChart.Proofs.Calendar.Window
import GanttChart.Proofs.Chart.Layers
import GanttChart.Proofs.Day.Months

/-! # The months of a chart

A chart marks the days with which a month begins to be shown: the first day of its window and the
firsts of the months. These are the first days that its window has of its months, each month once,
and until the last month of the range the days left in a month and in the window tell how many days
the window has of it. -/

namespace GanttChart

open Civil Sheet

namespace WorkCalendar

variable {c : WorkCalendar} {d e : Day} {m : ℤ ×ₗ ℕ}

/-- The days that a window has of a month. -/
def monthDays (c : WorkCalendar) (m : ℤ ×ₗ ℕ) : Set Day := {d | d ∈ c.window ∧ d.yearMonth = m}

/-- The months of which a window has days, in the order of the calendar. -/
structure Months (c : WorkCalendar) (months : List (ℤ ×ₗ ℕ)) : Prop where
  ordered : months.Pairwise (· < ·)
  mem_iff : ∀ m, m ∈ months ↔ (c.monthDays m).Nonempty

theorem mem_monthDays_yearMonth :
    e ∈ c.monthDays d.yearMonth ↔ e ∈ c.window ∧ e.monthIndex = d.monthIndex := by
  rw [monthDays, Set.mem_ofPred_eq, Day.yearMonth_eq_iff]

/-! ## The first day of a month -/

/-- Whether a month begins with a day of a window, which it also does on the first day of the
window. -/
def beginsMonth (c : WorkCalendar) (d : Day) : Bool := d == c.start || d.dayOfMonth == 1

/-- A month begins with a day if and only if the window has no earlier day of it. -/
theorem beginsMonth_iff (hd : d ∈ c.window) :
    c.beginsMonth d = true ↔ IsLeast (c.monthDays d.yearMonth) d := by
  rw [beginsMonth, Bool.or_eq_true, beq_iff_eq, beq_iff_eq, Day.dayOfMonth_eq_one_iff]
  constructor
  · intro h
    refine ⟨⟨hd, rfl⟩, fun e he => ?_⟩
    obtain ⟨hwindow, hmonth⟩ := mem_monthDays_yearMonth.mp he
    rcases h with rfl | hfirst
    · exact hwindow.1
    · rw [Day.le_def, hfirst, ← hmonth]
      exact e.monthStart_le
  · intro hleast
    by_contra hnot
    rw [not_or, Day.ext_iff] at hnot
    -- the day before is in the window and in the same month
    have hstart : c.start.number ≤ d.number := hd.1
    have hfinish : d.number ≤ c.finish.number := hd.2
    have hfirst := c.start.first_le
    have hlast := d.le_last
    have hmonth := d.monthStart_le
    have hnext := d.lt_monthStart
    have hbefore : (⟨d.number - 1, by omega, by omega⟩ : Day) ∈ c.monthDays d.yearMonth := by
      refine mem_monthDays_yearMonth.mpr ⟨⟨?_, ?_⟩, Day.monthIndex_eq_iff.mpr ⟨?_, ?_⟩⟩
      · show c.start.number ≤ d.number - 1
        omega
      · show d.number - 1 ≤ c.finish.number
        omega
      · show monthStart d.monthIndex ≤ d.number - 1
        omega
      · show d.number - 1 < monthStart (d.monthIndex + 1)
        omega
    have hle : d.number ≤ d.number - 1 := hleast.2 hbefore
    omega

/-- Going through a window, a month begins where the number of the month changes. -/
theorem beginsMonth_of_step? (hd : d ∈ c.window) (h : d.step? .forward = some e) :
    c.beginsMonth e = true ↔ e.month ≠ d.month := by
  have hnext : e.number = d.number + 1 := Day.plus?_eq_some.mp h
  have hstart : c.start.number ≤ d.number := hd.1
  have hne : ¬ e = c.start := fun heq => by
    rw [heq] at hnext
    omega
  rw [beginsMonth, Bool.or_eq_true, beq_iff_eq, beq_iff_eq, Day.month_ne_iff_of_step? h]
  exact or_iff_right hne

/-- The first of the listed days is the first day of the window. -/
theorem eq_start_of_days {rest : List Day} (h : c.days = d :: rest) : d = c.start := by
  have hd := mem_days.mp (h ▸ List.mem_cons_self : d ∈ c.days)
  have hle : c.start ≤ d := hd.1.1
  have hstart : c.start ∈ c.days := by
    refine mem_days.mpr ⟨⟨Int.le_refl _, Int.le_trans hle hd.1.2⟩, Day.ne_latest_iff.mpr ?_⟩
    exact Int.lt_of_le_of_lt hle (Day.ne_latest_iff.mp hd.2)
  have hordered : (d :: rest).Pairwise (· < ·) := h ▸ Day.pairwise_span c.start c.finish
  rcases List.mem_cons.mp (h ▸ hstart) with heq | hrest
  · exact heq.symm
  · exact absurd (List.rel_of_pairwise_cons hordered hrest) (Int.not_lt.mpr hle)

/-- Going through a window and comparing the month of each day with the one before it marks the days
with which months begin. -/
theorem columnMarks_eq_flatMap {s : Sheet} {rest : List Day}
    (hchain : (d :: rest).IsChain fun a b => a.step? .forward = some b)
    (hwindow : ∀ e ∈ d :: rest, e ∈ c.window) :
    s.columnMarks c (some d.month) rest = rest.flatMap fun e =>
      (if c.beginsMonth e then s.monthMarks c e else []) ++ s.dayMarks c e := by
  induction rest generalizing d with
  | nil => rfl
  | cons e rest ih =>
    obtain ⟨hstep, hchain⟩ := List.isChain_cons_cons.mp hchain
    have hrest := ih hchain fun x hx => hwindow x (List.mem_cons_of_mem d hx)
    have hbegins := beginsMonth_of_step? (hwindow d List.mem_cons_self) hstep
    rw [columnMarks, List.flatMap_cons, hrest]
    by_cases hsame : e.month = d.month
    · rw [if_pos (congrArg some hsame.symm), if_neg fun h => hbegins.mp h hsame]
    · rw [if_neg fun h => hsame (Option.some.inj h).symm, if_pos (hbegins.mpr hsame)]

theorem columnMarks_days (s : Sheet) (c : WorkCalendar) :
    s.columnMarks c none c.days = c.days.flatMap fun d =>
      (if c.beginsMonth d then s.monthMarks c d else []) ++ s.dayMarks c d := by
  cases hdays : c.days with
  | nil => rfl
  | cons d rest =>
    have hchain : (d :: rest).IsChain fun a b => a.step? .forward = some b :=
      hdays ▸ Day.isChain_span c.start c.finish
    have hwindow : ∀ e ∈ d :: rest, e ∈ c.window := fun e he => (mem_days.mp (hdays ▸ he)).1
    have hbegins : c.beginsMonth d = true := by
      rw [beginsMonth, eq_start_of_days hdays, beq_self_eq_true, Bool.true_or]
    rw [columnMarks, List.flatMap_cons, columnMarks_eq_flatMap hchain hwindow, if_pos hbegins,
      if_neg (Option.some_ne_none _).symm]

theorem exists_isLeast (h : (c.monthDays m).Nonempty) : ∃ d, IsLeast (c.monthDays m) d := by
  obtain ⟨d, hd, hle⟩ := Set.exists_min_image _ Day.number (c.monthDays m).toFinite h
  exact ⟨d, hd, hle⟩

/-- The days with which months begin, in the order of the calendar, for each month that the window
has a day of. -/
theorem months_firsts (hfinish : c.finish ≠ .latest) :
    c.Months ((c.days.filter c.beginsMonth).map Day.yearMonth) := by
  constructor
  · rw [List.pairwise_map]
    refine ((Day.pairwise_span c.start c.finish).filter _).imp_of_mem fun {a b} ha hb hlt => ?_
    obtain ⟨hb, hbegins⟩ := List.mem_filter.mp hb
    have hleast := (beginsMonth_iff (mem_days.mp hb).1).mp hbegins
    rw [Day.yearMonth_lt_iff]
    refine lt_of_le_of_ne (Day.monthIndex_mono (Int.le_of_lt hlt)) fun hsame => ?_
    -- the later one of two days in a month does not begin it
    have hmem : a ∈ c.monthDays b.yearMonth :=
      mem_monthDays_yearMonth.mpr ⟨(mem_days.mp (List.mem_filter.mp ha).1).1, hsame⟩
    exact absurd (hleast.2 hmem) (Int.not_le.mpr hlt)
  · intro m
    simp only [List.mem_map, List.mem_filter]
    constructor
    · rintro ⟨d, ⟨hd, _⟩, rfl⟩
      exact ⟨d, (mem_days.mp hd).1, rfl⟩
    · intro h
      obtain ⟨d, hd⟩ := exists_isLeast h
      obtain ⟨hwindow, rfl⟩ := hd.1
      exact ⟨d, ⟨(mem_days_of_finish hfinish).mpr hwindow, (beginsMonth_iff hwindow).mpr hd⟩, rfl⟩

/-! ## How much of a month is shown -/

/-- Before the last month of the range, the smaller one of what is left of the month and of the
window is what the window has of a month. -/
theorem shownOfMonth_eq (hend : c.finish.yearMonth < Day.latest.yearMonth)
    (hleast : IsLeast (c.monthDays d.yearMonth) d) :
    shownOfMonth c d = ((c.monthDays d.yearMonth).ncard : Int) := by
  have hwindow : d ∈ c.window := hleast.1.1
  have hnumbers : d.number ≤ c.finish.number := hwindow.2
  have hmonth : d.monthIndex + 1 ≤ Day.latest.monthIndex :=
    Int.lt_of_le_of_lt (Day.monthIndex_mono hwindow.2) (Day.yearMonth_lt_iff.mp hend)
  have hstart : monthStart (d.monthIndex + 1) ≤ lastDayNumber :=
    (monthStart_strictMono.le_iff_le.mpr hmonth).trans Day.latest.monthStart_le
  have hfirst := d.first_le
  have hnext := d.lt_monthStart
  -- the first day that is not shown or not in the month
  obtain ⟨bound, hbound⟩ : ∃ bound : Day,
      bound.number = min (monthStart (d.monthIndex + 1)) (c.finish.number + 1) :=
    ⟨⟨_, by omega, by omega⟩, rfl⟩
  have hdays : c.monthDays d.yearMonth = Day.before d bound := by
    ext e
    rw [mem_monthDays_yearMonth, Day.monthIndex_eq_iff]
    have hfirstOfMonth := d.monthStart_le
    have hbegin : c.start.number ≤ d.number := hwindow.1
    constructor
    · rintro ⟨he, hlow, hhigh⟩
      have hle : d ≤ e :=
        hleast.2 (mem_monthDays_yearMonth.mpr ⟨he, Day.monthIndex_eq_iff.mpr ⟨hlow, hhigh⟩⟩)
      have hlast : e.number ≤ c.finish.number := he.2
      refine ⟨hle, ?_⟩
      rw [Day.lt_def]
      omega
    · rintro ⟨hle, hlt⟩
      rw [Day.le_def] at hle
      rw [Day.lt_def] at hlt
      refine ⟨⟨?_, ?_⟩, by omega, by omega⟩
      · rw [Day.le_def]
        omega
      · rw [Day.le_def]
        omega
  have hle : d ≤ bound := by
    rw [Day.le_def]
    omega
  rw [hdays, Day.ncard_before hle, shownOfMonth, Day.remainingInMonth_eq hstart]
  simp only [Day.distance]
  omega

end WorkCalendar

/-! ## Separators and labels -/

/-- Whether an element is a text in heavy type. -/
def Element.isHeavy (e : Element) : Bool :=
  match e.primitive with
  | .text _ _ style => style.bold
  | _ => false

namespace Sheet

variable {s : Sheet} {c : WorkCalendar} {d : Day} {m : ℤ ×ₗ ℕ}

/-- The line on the left of the column of a day, from the top to the bottom. -/
def separator (s : Sheet) (d : Day) : Element :=
  ⟨Layer.frame, s.gridLine ⟨s.layout.x d, 0⟩ ⟨s.layout.x d, s.layout.height⟩⟩

/-- A text in heavy type at the top of the column of a day. -/
def label (s : Sheet) (d : Day) (content : String) : Element :=
  ⟨Layer.grid, .text ⟨s.layout.x d + 1, 1⟩ content (s.textStyle 13).heavy⟩

/-- The separator of a month stands at the first day that a window has of it. -/
def SeparatorOf (s : Sheet) (c : WorkCalendar) (m : ℤ ×ₗ ℕ) (e : Element) : Prop :=
  ∃ first, IsLeast (c.monthDays m) first ∧ e = s.separator first

/-- So does its label: the number of the month, with the year before it unless the window has fewer
than three days of the month. -/
def LabelOf (s : Sheet) (c : WorkCalendar) (m : ℤ ×ₗ ℕ) (e : Element) : Prop :=
  ∃ first, IsLeast (c.monthDays m) first ∧
    e = s.label first
      (if (c.monthDays m).ncard < 3 then toString (ofLex m).2
        else toString (ofLex m).1 ++ "/" ++ toString (ofLex m).2)

theorem isHeavy_dayMarks : ∀ e ∈ s.dayMarks c d, ¬ e.isHeavy = true := by
  intro e he
  unfold dayMarks at he
  simp only at he
  split at he
  · simp only [List.mem_cons, List.not_mem_nil, or_false] at he
    rcases he with rfl | rfl | rfl <;> exact Bool.false_ne_true
  · split at he
    · simp only [List.mem_cons, List.not_mem_nil, or_false] at he
      rcases he with rfl | rfl <;> exact Bool.false_ne_true
    · cases he

theorem flatMap_ite {α β : Type} (p : α → Bool) (f : α → β) (l : List α) :
    (l.flatMap fun a => if p a then [f a] else []) = (l.filter p).map f := by
  induction l with
  | nil => rfl
  | cons a l ih =>
    rw [List.flatMap_cons, ih]
    cases h : p a <;> simp [h]

/-- On the layer of the frame the columns have the separators. -/
theorem frame_columns (s : Sheet) (c : WorkCalendar) :
    ((s.columnMarks c none c.days).filter fun e => e.layer == Layer.frame) =
      (c.days.filter c.beginsMonth).map s.separator := by
  rw [WorkCalendar.columnMarks_days, List.filter_flatMap, ← flatMap_ite]
  refine List.flatMap_congr fun d _ => ?_
  rw [List.filter_append, Schedule.filter_layer_eq_nil (fun e => layer_of_dayMarks) (by decide),
    List.append_nil]
  split <;> rfl

/-- In heavy type the columns have the labels. -/
theorem heavy_columns (s : Sheet) (c : WorkCalendar) :
    (((s.columnMarks c none c.days).filter fun e => e.layer == Layer.grid).filter
      Element.isHeavy) =
        (c.days.filter c.beginsMonth).map fun d => s.label d (monthLabel c d) := by
  rw [WorkCalendar.columnMarks_days, List.filter_comm, List.filter_flatMap, List.filter_flatMap,
    ← flatMap_ite]
  refine List.flatMap_congr fun d _ => ?_
  rw [List.filter_append, List.filter_eq_nil_iff.mpr isHeavy_dayMarks, List.append_nil]
  split <;> rfl

end Sheet

namespace Schedule

variable {s : Schedule} {chart : ChartConfig}

theorem inLayer_frame : (s.drawing chart).inLayer Layer.frame =
    ((s.calendar.days.filter s.calendar.beginsMonth).map
      (separator ⟨chart, .ofSchedule chart s⟩)) ++ frame ⟨chart, .ofSchedule chart s⟩ := by
  rw [inLayer_calendar (by simp), calendarMarks, List.filter_append, List.filter_append,
    List.filter_append, frame_columns, filter_layer_eq_nil layer_of_closedMarks (by decide),
    List.append_nil, List.append_assoc]
  rfl

theorem heavy_inLayer_grid : ((s.drawing chart).inLayer Layer.grid).filter Element.isHeavy =
    (s.calendar.days.filter s.calendar.beginsMonth).map fun d =>
      label ⟨chart, .ofSchedule chart s⟩ d (monthLabel s.calendar d) := by
  rw [inLayer_calendar (by simp), calendarMarks, List.filter_append, List.filter_append,
    List.filter_append, List.filter_append, List.filter_append, List.filter_append, heavy_columns,
    filter_layer_eq_nil layer_of_closedMarks (by decide),
    filter_layer_eq_nil layer_of_frame (by decide), List.filter_nil, List.append_nil,
    List.append_nil]
  exact List.append_nil _

/-- Where a window ends before the last month of the range, its chart has one separator and one
label for each month that the window has a day of, in the order of the calendar, all of them at the
column of the first such day. Other than the separators there is only the frame on their layer, and
other than the labels no text in heavy type on theirs. -/
theorem months_drawn (s : Schedule) (chart : ChartConfig)
    (hend : s.calendar.finish.yearMonth < Day.latest.yearMonth) :
    ∃ months separators, s.calendar.Months months ∧
      (s.drawing chart).inLayer Layer.frame =
        separators ++ frame ⟨chart, .ofSchedule chart s⟩ ∧
      List.Forall₂ (SeparatorOf ⟨chart, .ofSchedule chart s⟩ s.calendar) months separators ∧
      List.Forall₂ (LabelOf ⟨chart, .ofSchedule chart s⟩ s.calendar) months
        (((s.drawing chart).inLayer Layer.grid).filter Element.isHeavy) := by
  have hfinish : s.calendar.finish ≠ .latest := fun heq => by
    rw [heq] at hend
    exact lt_irrefl _ hend
  have hleast : ∀ d ∈ s.calendar.days.filter (s.calendar.beginsMonth),
      IsLeast (s.calendar.monthDays d.yearMonth) d := by
    intro d hd
    obtain ⟨hd, hbegins⟩ := List.mem_filter.mp hd
    exact (WorkCalendar.beginsMonth_iff (WorkCalendar.mem_days.mp hd).1).mp hbegins
  refine ⟨_, _, WorkCalendar.months_firsts hfinish, inLayer_frame, ?_, ?_⟩
  · rw [List.forall₂_map_left_iff, List.forall₂_map_right_iff, List.forall₂_same]
    exact fun d hd => ⟨d, hleast d hd, rfl⟩
  · rw [heavy_inLayer_grid, List.forall₂_map_left_iff, List.forall₂_map_right_iff,
      List.forall₂_same]
    intro d hd
    refine ⟨d, hleast d hd, ?_⟩
    have hshown := WorkCalendar.shownOfMonth_eq hend (hleast d hd)
    have hfew : shownOfMonth s.calendar d < 3 ↔ (s.calendar.monthDays d.yearMonth).ncard < 3 := by
      omega
    simp only [monthLabel, hfew]
    rfl

example : Day.latest.yearMonth = toLex (262142, 12) := by decide +kernel

/-- From 30 December 2020 to 2 February 2021. -/
def turnOfYear : Schedule :=
  ⟨.ofWindow ⟨18626, by decide, by decide⟩ ⟨18660, by decide, by decide⟩
    ⟨18630, by decide, by decide⟩ .weekly, [], [], []⟩

/-- The two days of December and the two of February have their separators as the whole January
has. -/
theorem turnOfYear_months_drawn :
    turnOfYear.calendar.finish.yearMonth < Day.latest.yearMonth ∧
    ∃ months separators, turnOfYear.calendar.Months months ∧
      [toLex (2020, 12), toLex (2021, 1), toLex (2021, 2)] ⊆ months ∧
      (turnOfYear.drawing .standard).inLayer Layer.frame =
        separators ++ frame ⟨.standard, .ofSchedule .standard turnOfYear⟩ ∧
      separators.length = months.length ∧
      List.Forall₂ (LabelOf ⟨.standard, .ofSchedule .standard turnOfYear⟩ turnOfYear.calendar)
        months (((turnOfYear.drawing .standard).inLayer Layer.grid).filter Element.isHeavy) := by
  have hend : turnOfYear.calendar.finish.yearMonth < Day.latest.yearMonth := by
    rw [Day.yearMonth_lt_iff]
    decide +kernel
  obtain ⟨months, separators, hmonths, hframe, hseparators, hlabels⟩ :=
    months_drawn turnOfYear .standard hend
  refine ⟨hend, months, separators, hmonths, ?_, hframe, hseparators.length_eq.symm, hlabels⟩
  intro m hm
  rw [hmonths.mem_iff]
  simp only [List.mem_cons, List.not_mem_nil, or_false] at hm
  rcases hm with rfl | rfl | rfl
  · exact ⟨⟨18626, by decide, by decide⟩, ⟨by decide, by decide⟩, by decide +kernel⟩
  · exact ⟨⟨18628, by decide, by decide⟩, ⟨by decide, by decide⟩, by decide +kernel⟩
  · exact ⟨⟨18660, by decide, by decide⟩, ⟨by decide, by decide⟩, by decide +kernel⟩

end Schedule

end GanttChart
