import GanttChart.Chart.Sheet

/-! The calendar of a chart: a label and a separator for every month, marks for days or for the
Mondays, the closed days, the frame, and the line of today. -/

namespace GanttChart.Sheet

/-- How many days of its month a window shows from a day on. -/
def shownOfMonth (c : WorkCalendar) (d : Day) : Int :=
  min d.remainingInMonth (d.distance c.finish + 1)

/-- A month of which fewer than three days are shown is named by its number alone. -/
def monthLabel (c : WorkCalendar) (d : Day) : String :=
  if shownOfMonth c d < 3 then toString d.month else toString d.year ++ "/" ++ toString d.month

/-- The label and the separator of the month that begins with a day. -/
def monthMarks (s : Sheet) (c : WorkCalendar) (d : Day) : List Element :=
  let x := s.layout.x d
  [⟨Layer.grid, .text ⟨x + 1, 1⟩ (monthLabel c d) (s.textStyle 13).heavy⟩,
   ⟨Layer.frame, s.gridLine ⟨x, 0⟩ ⟨x, s.layout.height⟩⟩]

/-- The line on the left of a column, below the header. -/
def columnLine (s : Sheet) (x : Float) : Element :=
  ⟨Layer.grid, s.gridLine ⟨x, s.layout.headerHeight⟩ ⟨x, s.layout.height⟩⟩

/-- A daily chart names every day, a weekly one shows the Mondays. -/
def dayMarks (s : Sheet) (c : WorkCalendar) (d : Day) : List Element :=
  let x := s.layout.x d
  let h := s.layout.rowHeight
  match c.scale with
  | .daily =>
    let middle := x + s.layout.columnWidth / 2
    let style := (s.textStyle 11).centered
    [⟨Layer.grid, .text ⟨middle, h + 1⟩ d.weekday.label style⟩,
     ⟨Layer.grid, .text ⟨middle, h * 2 + 1⟩ (toString d.dayOfMonth) style⟩,
     s.columnLine x]
  | .weekly =>
    if d.weekday = .monday then
      [⟨Layer.grid, .text ⟨x + 1, h + 1⟩ (toString d.dayOfMonth) (s.textStyle 11)⟩, s.columnLine x]
    else []

/-- The marks of days from left to right. A month begins with every day that has another month than
the day before it, and with the first day. -/
def columnMarks (s : Sheet) (c : WorkCalendar) (monthBefore : Option Nat) :
    List Day → List Element
  | [] => []
  | d :: rest =>
    (if monthBefore = some d.month then [] else s.monthMarks c d) ++ s.dayMarks c d
      ++ s.columnMarks c (some d.month) rest

/-- The column of a closed day, below the header. -/
def closedMark (s : Sheet) (d : Day) : Element :=
  let header := s.layout.headerHeight
  ⟨Layer.closed,
   .rect ⟨s.layout.x d, header⟩ s.layout.columnWidth (s.layout.height - header) 0
     s.config.closedFill none⟩

/-- The right edge, the top edge and the line below the header. -/
def frame (s : Sheet) : List Element :=
  let width := s.layout.width
  let header := s.layout.headerHeight
  [⟨Layer.frame, s.gridLine ⟨width, 0⟩ ⟨width, s.layout.height⟩⟩,
   ⟨Layer.frame, s.gridLine ⟨0, 0⟩ ⟨width, 0⟩⟩,
   ⟨Layer.frame, s.gridLine ⟨0, header⟩ ⟨width, header⟩⟩]

/-- The line of today, wherever it lies. -/
def todayMark (s : Sheet) (c : WorkCalendar) : Element :=
  let x := s.layout.x c.today
  ⟨Layer.today, .line ⟨x, 0⟩ ⟨x, s.layout.height⟩ (.solid s.config.todayColor 3)⟩

def calendarMarks (s : Sheet) (c : WorkCalendar) : List Element :=
  s.columnMarks c none c.days
    ++ (c.closedDays.filter fun d => c.start ≤ d ∧ d ≤ c.finish).map s.closedMark
    ++ s.frame ++ [s.todayMark c]

theorem mem_columnMarks {s : Sheet} {c : WorkCalendar} {monthBefore : Option Nat} {days : List Day}
    {e : Element} (he : e ∈ s.columnMarks c monthBefore days) :
    ∃ d ∈ days, e ∈ s.monthMarks c d ∨ e ∈ s.dayMarks c d := by
  induction days generalizing monthBefore with
  | nil => cases he
  | cons d rest ih =>
    rw [columnMarks, List.mem_append, List.mem_append] at he
    rcases he with (he | he) | he
    · split at he
      · cases he
      · exact ⟨d, List.mem_cons_self, .inl he⟩
    · exact ⟨d, List.mem_cons_self, .inr he⟩
    · obtain ⟨f, hf, he⟩ := ih he
      exact ⟨f, List.mem_cons_of_mem _ hf, he⟩

end GanttChart.Sheet
