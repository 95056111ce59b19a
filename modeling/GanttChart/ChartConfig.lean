import GanttChart.Color
import GanttChart.Json.Tree
import GanttChart.ScheduleError

/-! Chart settings. They are read from JSON text as an object with any of the settings, the others
keeping their standard values, or as a list of settings in the order of the fields below. Unknown
settings are passed over; a known one given twice or with a wrong kind of value is refused. -/

namespace GanttChart

structure ChartConfig where
  rowHeight : Float
  dailyColumnWidth : Float
  weeklyColumnWidth : Float
  hoursPerDay : Float
  /-- Business days kept between an item and the item it is derived from. -/
  dependencyGapDays : Int
  defaultColors : ColorSet
  defaultPathColor : String
  fontFamily : String
  gridColor : String
  closedFill : String
  todayColor : String

namespace ChartConfig

def standard : ChartConfig :=
  { rowHeight := 16
    dailyColumnWidth := 16
    weeklyColumnWidth := 8
    hoursPerDay := 8
    dependencyGapDays := 2
    defaultColors := .standard
    defaultPathColor := "blue"
    fontFamily := "Serif"
    gridColor := "#C0C0C0"
    closedFill := "#D0D0D0"
    todayColor := "#FF0000" }

open Json (Tree)

def readFloat? : Tree → Option Float
  | .number n => n.value?.map Num.toFloat
  | _ => none

/-- A whole number of 64 bits with sign. -/
def readInt? : Tree → Option Int
  | .number n =>
    match n.value? with
    | some (.whole i) => if i < Number.twoTo 63 then some i else none
    | _ => none
  | _ => none

def readText? : Tree → Option String
  | .string s => s
  | _ => none

inductive Parts where
  | named (fields : List (Option String × Tree))
  | listed (items : List Tree)

/-- The part with a name or at a place: `none` when it is refused, `some none` when it is
absent. -/
def Parts.read? {α : Type} (parts : Parts) (read : Tree → Option α) (name : String) (place : Nat) :
    Option (Option α) :=
  match parts with
  | .named fields =>
    match fields.filter fun f => f.1 == some name with
    | [] => some none
    | [f] => (read f.2).map some
    | _ => none
  | .listed items =>
    match items[place]? with
    | none => some none
    | some t => (read t).map some

/-- The parts of a tree, of which a list holds at most `most`; keys must be text. -/
def Parts.ofTree? (most : Nat) : Tree → Option Parts
  | .object fields => if fields.all fun f => f.1.isSome then some (.named fields) else none
  | .array items => if items.length ≤ most then some (.listed items) else none
  | _ => none

/-- Five colors; none may be absent. -/
def readColors? (t : Tree) : Option ColorSet := do
  let parts ← Parts.ofTree? 5 t
  let planFill ← (← parts.read? readText? "plan_fill" 0)
  let planOutline ← (← parts.read? readText? "plan_outline" 1)
  let actualFill ← (← parts.read? readText? "actual_fill" 2)
  let actualOutline ← (← parts.read? readText? "actual_outline" 3)
  let text ← (← parts.read? readText? "text" 4)
  some ⟨planFill, planOutline, actualFill, actualOutline, text⟩

def ofTree? (t : Tree) : Option ChartConfig := do
  let parts ← Parts.ofTree? 11 t
  let rowHeight ← parts.read? readFloat? "row_height" 0
  let dailyColumnWidth ← parts.read? readFloat? "daily_column_width" 1
  let weeklyColumnWidth ← parts.read? readFloat? "weekly_column_width" 2
  let hoursPerDay ← parts.read? readFloat? "hours_per_day" 3
  let dependencyGapDays ← parts.read? readInt? "dependency_gap_days" 4
  let defaultColors ← parts.read? readColors? "default_colors" 5
  let defaultPathColor ← parts.read? readText? "default_path_color" 6
  let fontFamily ← parts.read? readText? "font_family" 7
  let gridColor ← parts.read? readText? "grid_color" 8
  let closedFill ← parts.read? readText? "closed_fill" 9
  let todayColor ← parts.read? readText? "today_color" 10
  some
    { rowHeight := rowHeight.getD standard.rowHeight
      dailyColumnWidth := dailyColumnWidth.getD standard.dailyColumnWidth
      weeklyColumnWidth := weeklyColumnWidth.getD standard.weeklyColumnWidth
      hoursPerDay := hoursPerDay.getD standard.hoursPerDay
      dependencyGapDays := dependencyGapDays.getD standard.dependencyGapDays
      defaultColors := defaultColors.getD standard.defaultColors
      defaultPathColor := defaultPathColor.getD standard.defaultPathColor
      fontFamily := fontFamily.getD standard.fontFamily
      gridColor := gridColor.getD standard.gridColor
      closedFill := closedFill.getD standard.closedFill
      todayColor := todayColor.getD standard.todayColor }

/-- Reads settings from JSON text. What is passed over may be nested to any depth. -/
def read (s : String) : Except ScheduleError ChartConfig :=
  let cs := s.toList
  match (Tree.read? cs.length cs).bind ofTree? with
  | some c => .ok c
  | none => .error .malformedText

def toValue (c : ChartConfig) : Value :=
  .ofFields
    [("row_height", .ofFloat c.rowHeight),
     ("daily_column_width", .ofFloat c.dailyColumnWidth),
     ("weekly_column_width", .ofFloat c.weeklyColumnWidth),
     ("hours_per_day", .ofFloat c.hoursPerDay),
     ("dependency_gap_days", .ofInt c.dependencyGapDays),
     ("default_colors", c.defaultColors.toValue),
     ("default_path_color", .str c.defaultPathColor),
     ("font_family", .str c.fontFamily),
     ("grid_color", .str c.gridColor),
     ("closed_fill", .str c.closedFill),
     ("today_color", .str c.todayColor)]

end ChartConfig

end GanttChart
