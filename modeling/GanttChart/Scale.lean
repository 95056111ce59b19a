import GanttChart.Text.Blank

/-! The granularity of a chart. -/

namespace GanttChart

inductive Scale where
  | daily
  | weekly
  deriving DecidableEq

namespace Scale

def name : Scale → String
  | daily => "daily"
  | weekly => "weekly"

/-- The word a text consists of, blanks around it and the case of ASCII letters put aside. -/
def word (s : String) : String := Text.lowerAscii (Text.trimmed s)

def ofText? (s : String) : Option Scale :=
  if word s = "daily" then some daily else if word s = "weekly" then some weekly else none

/-- What is said of a text that names no scale. -/
def unknownMessage (s : String) : String := "unknown scale '" ++ word s ++ "'"

@[simp] theorem ofText?_name (s : Scale) : ofText? s.name = some s := by
  cases s <;> decide +kernel

end Scale

end GanttChart
