import GanttChart.ChartConfig
import GanttChart.Schedule.Basic

/-! Coordinates of a chart. Days are columns from left to right; below the calendar header every
group header and every item has a pair of rows, the body in the first and room for the actual bar
in the second. -/

namespace GanttChart

/-- What takes a pair of rows. -/
inductive Row where
  | header (g : Group)
  | item (i : ScheduleItem)

def Row.name? : Row → Option String
  | header _ => none
  | item i => some i.name

/-- The rows of a group: its header, if it has a label, and its members that are items. -/
def Schedule.groupRows (s : Schedule) (g : Group) : List Row :=
  (if g.isLabeled then [.header g] else []) ++ (g.member.filterMap s.find?).map .item

def Schedule.rows (s : Schedule) : List Row := s.groups.flatMap s.groupRows

structure Layout where
  start : Day
  columnWidth : Float
  rowHeight : Float
  headerRows : Nat
  width : Float
  height : Float

namespace Layout

/-- A header shows months, weekdays and days of the month, without the weekdays in a weekly
chart. -/
def headerRowsOf : Scale → Nat
  | .daily => 3
  | .weekly => 2

def columnWidthOf (config : ChartConfig) : Scale → Float
  | .daily => config.dailyColumnWidth
  | .weekly => config.weeklyColumnWidth

/-- The pairs of rows that the canvas has room for. -/
def rowCount (s : Schedule) : Nat :=
  s.labeledGroupCount + (s.groups.flatMap Group.member).length

/-- The layout of a schedule; one spare pair of rows is left below the last one. -/
def ofSchedule (config : ChartConfig) (s : Schedule) : Layout :=
  let scale := s.calendar.scale
  { start := s.calendar.start
    columnWidth := columnWidthOf config scale
    rowHeight := config.rowHeight
    headerRows := headerRowsOf scale
    width := columnWidthOf config scale * Number.ofInt s.calendar.dayCount
    height :=
      config.rowHeight * Number.ofInt (headerRowsOf scale)
        + 2 * config.rowHeight * Number.ofInt (rowCount s + 1) }

def headerHeight (l : Layout) : Float := l.rowHeight * Number.ofInt l.headerRows

def x (l : Layout) (d : Day) : Float := l.columnWidth * Number.ofInt (l.start.distance d)

def rowY (l : Layout) (row : Nat) : Float :=
  l.headerHeight + l.rowHeight + 2 * l.rowHeight * Number.ofInt row

end Layout

end GanttChart
