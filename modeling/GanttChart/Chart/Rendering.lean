import GanttChart.Chart.Arrow
import GanttChart.Chart.Grid
import GanttChart.Chart.Rows

/-! Schedules as drawings. -/

namespace GanttChart.Schedule

def numberedRows (s : Schedule) : List (Row × Nat) := s.rows.zipIdx

/-- The number of the row of an item among rows from the bottom to the top, so that the lowest one
counts when it has several. -/
def rowNumber? (upwards : List (Row × Nat)) (name : String) : Option Nat :=
  (upwards.find? fun row => row.1.name? == some name).map (·.2)

/-- The arrows of all paths between items that have rows. -/
def arrows (s : Schedule) (layout : Layout) (rows : List (Row × Nat)) : List Primitive :=
  let upwards := rows.reverse
  s.paths.filterMap fun p => p.arrow? layout fun name => (rowNumber? upwards name).map layout.rowY

/-- The elements in the order of construction: the calendar, the rows and the arrows. -/
def marks (s : Schedule) (sheet : Sheet) : List Element :=
  let rows := s.numberedRows
  sheet.calendarMarks s.calendar
    ++ (rows.flatMap fun row => sheet.rowMarks (sheet.layout.rowY row.2) row.1)
    ++ (s.arrows sheet.layout rows).map fun a => ⟨Layer.path, a⟩

def drawing (s : Schedule) (config : ChartConfig) : Drawing :=
  let layout := Layout.ofSchedule config s
  { width := layout.width
    height := layout.height
    symbols := [arrowhead]
    elements := s.marks ⟨config, layout⟩ : Drawing }.sorted

end GanttChart.Schedule
