import GanttChart.Proofs.Notation.Partition
import GanttChart.Proofs.Schedule.Calendar
import Mathlib

/-! # The closed days of the notation

A closing line is written as entries, and each entry is coerced and read again before it closes
anything. Nothing is lost on the way: the closed days of the calendar are those that the closing
lines denote. -/

namespace GanttChart.Notation

variable {config : ChartConfig} {text : String} {scale : Option Scale} {s : Schedule}
  {first last d : Day} {entry front back : String}

/-! ## What closing lines denote -/

/-- An entry of two parts, with the separator between them at its first occurrence. -/
def IsPair (entry front back : String) : Prop :=
  Text.FirstCut " to ".toList entry.toList front.toList back.toList

/-- An entry that stands for all days from one date to another. -/
def IsDateRange (entry : String) (first last : Day) : Prop :=
  ∃ front back, IsPair entry front back ∧ Day.read? front = some first ∧
    Day.read? back = some last

/-- The days that the entry of a closing line denotes in a window of days. -/
inductive Denotes (first last : Day) (entry : String) (d : Day) : Prop
  | lone (hsep : ¬ " to ".toList <:+: entry.toList) (h : Closes first last entry d)
  | dates {a b : Day} (h : IsDateRange entry a b) (ha : a ≤ d) (hb : d ≤ b)
  | weekdays {front back : String} {v w : Weekday} (h : IsPair entry front back)
      (hdates : Day.read? front = none ∨ Day.read? back = none)
      (hfront : Weekday.ofText? front = some v) (hback : Weekday.ofText? back = some w)
      (hmeets : v.Meets w d.weekday) (hfirst : first ≤ d) (hlast : d ≤ last)

theorem isPair_iff : IsPair entry front back ↔
    Text.cut? " to ".toList entry.toList = some (front.toList, back.toList) :=
  Text.cut?_eq_some_iff.symm

theorem IsPair.unique {front' back' : String} (h : IsPair entry front back)
    (h' : IsPair entry front' back') : front = front' ∧ back = back' := by
  obtain ⟨hfront, hback⟩ := Text.FirstCut.unique h h'
  exact ⟨String.toList_injective hfront, String.toList_injective hback⟩

theorem IsPair.isInfix (h : IsPair entry front back) : " to ".toList <:+: entry.toList :=
  ⟨front.toList, back.toList, h.eq.symm⟩

theorem exists_isPair (h : " to ".toList <:+: entry.toList) :
    ∃ front back, IsPair entry front back := by
  cases hcut : Text.cut? " to ".toList entry.toList with
  | none => exact absurd h (Text.cut?_eq_none_iff.mp hcut)
  | some parts =>
    exact ⟨String.ofList parts.1, String.ofList parts.2, by simpa [isPair_iff] using hcut⟩

theorem denotes_of_lone (hsep : ¬ " to ".toList <:+: entry.toList) :
    Denotes first last entry d ↔ Closes first last entry d := by
  refine ⟨fun h => ?_, .lone hsep⟩
  cases h with
  | lone _ h => exact h
  | dates h =>
    obtain ⟨_, _, hpair, _⟩ := h
    exact absurd hpair.isInfix hsep
  | weekdays h => exact absurd h.isInfix hsep

theorem denotes_of_dates {a b : Day} (h : IsPair entry front back)
    (hfront : Day.read? front = some a) (hback : Day.read? back = some b) :
    Denotes first last entry d ↔ a ≤ d ∧ d ≤ b := by
  refine ⟨fun hd => ?_, fun ⟨ha, hb⟩ => .dates ⟨front, back, h, hfront, hback⟩ ha hb⟩
  cases hd with
  | lone hsep => exact absurd h.isInfix hsep
  | dates h' ha hb =>
    obtain ⟨_, _, hpair, hfront', hback'⟩ := h'
    obtain ⟨rfl, rfl⟩ := h.unique hpair
    rw [hfront, Option.some.injEq] at hfront'
    rw [hback, Option.some.injEq] at hback'
    exact ⟨hfront' ▸ ha, hback' ▸ hb⟩
  | weekdays h' hdates =>
    obtain ⟨rfl, rfl⟩ := h.unique h'
    simp [hfront, hback] at hdates

theorem denotes_of_no_dates (h : IsPair entry front back)
    (hdates : Day.read? front = none ∨ Day.read? back = none) :
    Denotes first last entry d ↔ ∃ v w, Weekday.ofText? front = some v ∧
      Weekday.ofText? back = some w ∧ v.Meets w d.weekday ∧ first ≤ d ∧ d ≤ last := by
  constructor
  · intro hd
    cases hd with
    | lone hsep => exact absurd h.isInfix hsep
    | dates h' =>
      obtain ⟨_, _, hpair, hfront, hback⟩ := h'
      obtain ⟨rfl, rfl⟩ := h.unique hpair
      simp [hfront, hback] at hdates
    | weekdays h' _ hfront hback hmeets hfirst hlast =>
      obtain ⟨rfl, rfl⟩ := h.unique h'
      exact ⟨_, _, hfront, hback, hmeets, hfirst, hlast⟩
  · rintro ⟨v, w, hfront, hback, hmeets, hfirst, hlast⟩
    exact .weekdays h hdates hfront hback hmeets hfirst hlast

/-! ## The entries of a closing line -/

theorem closes_text {a : Day} : Closes first last a.text d ↔ d = a := by
  constructor
  · intro h
    cases h with
    | date h => simpa [eq_comm] using h
    | weekday hdate => simp at hdate
  · rintro rfl
    exact .date d.read?_text

theorem closes_name {w : Weekday} :
    Closes first last w.name d ↔ w = d.weekday ∧ first ≤ d ∧ d ≤ last := by
  constructor
  · intro h
    cases h with
    | date h =>
      rw [w.read?_name] at h
      cases h
    | weekday _ hw hfirst hlast =>
      rw [w.ofText?_name] at hw
      exact ⟨Option.some.inj hw, hfirst, hlast⟩
  · rintro ⟨rfl, hfirst, hlast⟩
    exact .weekday (Weekday.read?_name _) (Weekday.ofText?_name _) hfirst hlast

/-- Coercing an entry does not change what it stands for. -/
theorem closes_closedName : Closes first last (closedName entry) d ↔ Closes first last entry d := by
  unfold closedName
  cases hw : Weekday.ofText? entry with
  | none => rfl
  | some w =>
    have hdate : Day.read? entry = none := by
      rw [Option.eq_none_iff_forall_ne_some]
      intro a ha
      rw [Weekday.ofText?_eq_none_of_read? ha] at hw
      cases hw
    simp only [Option.map_some, Option.getD_some, closes_name]
    constructor
    · rintro ⟨rfl, hfirst, hlast⟩
      exact .weekday hdate hw hfirst hlast
    · intro h
      cases h with
      | date h =>
        rw [hdate] at h
        cases h
      | weekday _ h hfirst hlast => exact ⟨Option.some.inj (hw.symm.trans h), hfirst, hlast⟩

theorem closes_span {a b : Day} (hb : b.number < lastDayNumber) :
    (∃ e ∈ (Day.span a b).map Day.text, Closes first last e d) ↔ a ≤ d ∧ d ≤ b := by
  simp only [List.mem_map, exists_exists_and_eq_and, closes_text, exists_eq_right', Day.mem_span]
  exact ⟨fun ⟨ha, hd, _⟩ => ⟨ha, hd⟩, fun ⟨ha, hd⟩ => ⟨ha, hd, Int.lt_of_le_of_lt hd hb⟩⟩

theorem closes_cycle {v w : Weekday} :
    (∃ e ∈ (Weekday.cycle v w).map Weekday.name, Closes first last e d) ↔
      v.Meets w d.weekday ∧ first ≤ d ∧ d ≤ last := by
  simp only [List.mem_map, exists_exists_and_eq_and, closes_name, Weekday.mem_cycle]
  exact ⟨fun ⟨_, hmeets, rfl, h⟩ => ⟨hmeets, h⟩, fun ⟨hmeets, h⟩ => ⟨_, hmeets, rfl, h⟩⟩

theorem closedEntries_of_lone (hsep : ¬ " to ".toList <:+: (Text.trimmed entry).toList) :
    closedEntries entry = [Text.trimmed entry] := by
  simp only [closedEntries, Text.cut?_eq_none_iff.mpr hsep]

theorem closedEntries_of_dates {a b : Day} (h : IsPair (Text.trimmed entry) front back)
    (hfront : Day.read? front = some a) (hback : Day.read? back = some b) :
    closedEntries entry = (Day.span a b).map Day.text := by
  simp only [closedEntries, isPair_iff.mp h, String.ofList_toList, hfront, hback]

theorem mem_closedEntries_of_no_dates {e : String} (h : IsPair (Text.trimmed entry) front back)
    (hdates : Day.read? front = none ∨ Day.read? back = none) :
    e ∈ closedEntries entry ↔ ∃ v w, Weekday.ofText? front = some v ∧
      Weekday.ofText? back = some w ∧ e ∈ (Weekday.cycle v w).map Weekday.name := by
  simp only [closedEntries, isPair_iff.mp h, String.ofList_toList]
  split
  · rename_i hfront hback
    simp [hfront, hback] at hdates
  · cases Weekday.ofText? front <;> cases Weekday.ofText? back <;> simp

/-- The entries of a closing line stand for what the line denotes. -/
theorem denotes_iff
    (hrange : ∀ a b, IsDateRange (Text.trimmed entry) a b → b.number < lastDayNumber) :
    Denotes first last (Text.trimmed entry) d ↔
      ∃ e ∈ closedEntries entry, Closes first last e d := by
  by_cases hsep : " to ".toList <:+: (Text.trimmed entry).toList
  · obtain ⟨front, back, hpair⟩ := exists_isPair hsep
    by_cases hdates : Day.read? front = none ∨ Day.read? back = none
    · rw [denotes_of_no_dates hpair hdates]
      simp only [mem_closedEntries_of_no_dates hpair hdates, ← closes_cycle]
      constructor
      · rintro ⟨v, w, hfront, hback, e, he, h⟩
        exact ⟨e, ⟨v, w, hfront, hback, he⟩, h⟩
      · rintro ⟨e, ⟨v, w, hfront, hback, he⟩, h⟩
        exact ⟨v, w, hfront, hback, e, he, h⟩
    · simp only [not_or, Option.ne_none_iff_exists'] at hdates
      obtain ⟨⟨a, hfront⟩, b, hback⟩ := hdates
      have hb := hrange a b ⟨front, back, hpair, hfront, hback⟩
      rw [denotes_of_dates hpair hfront hback, closedEntries_of_dates hpair hfront hback,
        closes_span hb]
  · rw [denotes_of_lone hsep, closedEntries_of_lone hsep]
    simp

/-! ## The closing lines of a text -/

/-- The entries that a line adds to the closed days of the project. -/
def Line.closedEntries : Line → List String
  | closed entry => Notation.closedEntries entry
  | _ => []

namespace Draft

variable {draft : Draft}

@[simp] theorem project_settle (draft : Draft) :
    draft.settle.document.project = draft.document.project := by
  unfold settle
  split
  · split <;> rfl
  · split <;> rfl
  · rfl

@[simp] theorem project_applyAttribute (draft : Draft) (a : Attribute) :
    (draft.applyAttribute a).document.project = draft.document.project := by
  unfold applyAttribute
  split <;> rfl

theorem closed_takeLine (draft : Draft) (l : Line) : (draft.takeLine l).document.project.closed =
    draft.document.project.closed ++ l.closedEntries := by
  cases l with
  | closed entry => rfl
  | period start finish =>
    simp only [takeLine, setPeriod, Line.closedEntries, List.append_nil]
    split <;> rfl
  | today day =>
    simp only [takeLine, setToday, Line.closedEntries, List.append_nil]
    split <;> rfl
  | scale word =>
    simp only [takeLine, setScale, Line.closedEntries, List.append_nil]
    split <;> rfl
  | color target list =>
    simp only [takeLine, setColors, Line.closedEntries, List.append_nil]
    split <;> rfl
  | detail body =>
    simp only [takeLine, Line.closedEntries, List.append_nil]
    split <;> simp
  | _ => exact (List.append_nil _).symm

theorem closed_foldl (ls : List Line) : (ls.foldl takeLine empty).document.project.closed =
    ls.flatMap Line.closedEntries := by
  induction ls using List.reverseRecOn with
  | nil => rfl
  | append_singleton ls l ih =>
    rw [List.foldl_append, List.foldl_cons, List.foldl_nil, closed_takeLine, ih]
    simp

end Draft

theorem mem_closed_document {e : String} : e ∈ (document text).project.closed ↔
    ∃ entry, .closed entry ∈ linesOf text ∧ e ∈ closedEntries entry := by
  rw [document, Draft.feedAll_eq_foldl, Draft.closed_foldl, List.mem_flatMap]
  constructor
  · rintro ⟨l, hl, he⟩
    cases l with
    | closed entry => exact ⟨entry, hl, he⟩
    | _ => cases he
  · rintro ⟨entry, hl, he⟩
    exact ⟨_, hl, he⟩

theorem calendar_withScale (s : Schedule) (scale : Option Scale) :
    (s.withScale scale).calendar.closed = s.calendar.closed ∧
      (s.withScale scale).calendar.start = s.calendar.start ∧
      (s.withScale scale).calendar.finish = s.calendar.finish := by
  cases scale <;> exact ⟨rfl, rfl, rfl⟩

/-- The closed days of a schedule from the notation are those that its closing lines denote in the
window of the project, while the window and the ranges of dates end before the last day of all. -/
theorem isClosed_iff_denotes (h : Schedule.ofText .plain text config scale = .ok s)
    (hfinish : s.calendar.finish.number < lastDayNumber)
    (hranges : ∀ entry a b, .closed entry ∈ linesOf text →
      IsDateRange (Text.trimmed entry) a b → b.number < lastDayNumber) (d : Day) :
    s.calendar.isClosed d = true ↔ ∃ entry, .closed entry ∈ linesOf text ∧
      Denotes s.calendar.start s.calendar.finish (Text.trimmed entry) d := by
  obtain ⟨doc, t, table, hrel, hresolves, rfl⟩ := Schedule.resolvesTo_of_ofText h
  obtain ⟨hclosed, hstart, hend⟩ := calendar_withScale t scale
  rw [hend] at hfinish
  rw [WorkCalendar.isClosed, hclosed, ← WorkCalendar.isClosed, hstart, hend,
    ProjectSection.isClosed_of_calendar hresolves.calendar hfinish, hrel.project]
  simp only [List.mem_map, exists_exists_and_eq_and, closes_closedName, mem_closed_document]
  constructor
  · rintro ⟨e, ⟨entry, hl, he⟩, h⟩
    exact ⟨entry, hl, (denotes_iff (hranges entry · · hl)).mpr ⟨e, he, h⟩⟩
  · rintro ⟨entry, hl, h⟩
    obtain ⟨e, he, h⟩ := (denotes_iff (hranges entry · · hl)).mp h
    exact ⟨e, ⟨entry, hl, he⟩, h⟩

/-- Weekends with the Monday after them are closed, and a range of dates besides. -/
def holidays : String :=
  "project lasts 2020/4/1 to 2020/4/30\ntoday is 2020/4/10\nsat to mon are closed\n" ++
    "2020/4/14 to 2020/4/16 are closed\n"

theorem exists_holidays_closed : ∃ s, Schedule.ofText .plain holidays .standard none = .ok s ∧
    s.calendar.finish.number < lastDayNumber ∧
    (∀ entry a b, .closed entry ∈ linesOf holidays →
      IsDateRange (Text.trimmed entry) a b → b.number < lastDayNumber) ∧
    ∀ d, s.calendar.isClosed d = true ↔ ∃ entry, .closed entry ∈ linesOf holidays ∧
      Denotes s.calendar.start s.calendar.finish (Text.trimmed entry) d := by
  have hnumber : ((Schedule.ofText .plain holidays .standard none).map
      fun s => s.calendar.finish.number) = .ok 18382 := by cbv
  obtain ⟨s, hs, hlast⟩ := Outcome.map_eq_ok.mp hnumber
  have hfinish : s.calendar.finish.number < lastDayNumber := by
    rw [hlast]
    decide
  have hlines : linesOf holidays = [.period "2020/4/1" "2020/4/30", .today "2020/4/10",
      .closed "sat to mon", .closed "2020/4/14 to 2020/4/16"] := by cbv
  have hranges : ∀ entry a b, .closed entry ∈ linesOf holidays →
      IsDateRange (Text.trimmed entry) a b → b.number < lastDayNumber := by
    rintro entry a b hl ⟨front, back, hpair, hfront, hback⟩
    rw [hlines] at hl
    simp only [List.mem_cons, reduceCtorEq, Line.closed.injEq, false_or, List.not_mem_nil,
      or_false] at hl
    rcases hl with rfl | rfl
    · have hparts : IsPair (Text.trimmed "sat to mon") "sat" "mon" := isPair_iff.mpr (by cbv)
      obtain ⟨rfl, rfl⟩ := hpair.unique hparts
      have hnone : Day.read? "sat" = none := by cbv
      rw [hnone] at hfront
      cases hfront
    · have hparts : IsPair (Text.trimmed "2020/4/14 to 2020/4/16") "2020/4/14" "2020/4/16" :=
        isPair_iff.mpr (by cbv)
      obtain ⟨rfl, rfl⟩ := hpair.unique hparts
      have hread : (Day.read? "2020/4/16").map Day.number = some 18368 := by cbv
      rw [hback] at hread
      rw [Option.some.inj hread]
      decide
  exact ⟨s, hs, hfinish, hranges, isClosed_iff_denotes hs hfinish hranges⟩

end GanttChart.Notation
