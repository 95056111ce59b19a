import GanttChart.ChartConfig
import GanttChart.Day.Weekday
import GanttChart.Json.Writer
import GanttChart.Number.Reader
import GanttChart.Text.Cut

/-! Coercion of loosely typed leaves. Every leaf of a structured value has a path, the keys on the
way to it joined by points, with one fixed key for any place in a list. Leaves at the paths of
closed days, periods and progresses are rewritten, all others are kept as they are. -/

namespace GanttChart.Coercion

/-- What is done to a leaf. -/
inductive Rule where
  | closedDay
  | period
  | progress
  deriving DecidableEq

/-- The path key that stands for any place in a list. -/
def itemKey : String := "elem"

/-- The paths whose leaves are rewritten. -/
def rules : List (String × Rule) :=
  [("project.closed.elem", .closedDay),
   ("task.elem.plan.period", .period),
   ("task.elem.actual.period", .period),
   ("task.elem.actual.progress", .progress),
   ("milestone.elem.plan.period", .period),
   ("milestone.elem.actual.period", .period),
   ("milestone.elem.actual.progress", .progress)]

def rule? (path : String) : Option Rule := (rules.find? fun r => r.1 == path).map (·.2)

/-- The path one key further on; the path of a whole value has no keys at all. -/
def extend (path : Option String) (key : String) : Option String :=
  match path with
  | none => some key
  | some p => some (p ++ "." ++ key)

/-- The text without a unit, in the plural or the singular, and the blanks before the unit. -/
def withoutUnit? (plural singular : String) (cs : List Char) : Option (List Char) :=
  ((Text.before? plural.toList cs).or (Text.before? singular.toList cs)).map Text.trim

/-- A period in days: hours are divided by the length of a working day, and a bare number counts
days. -/
def readPeriod? (hoursPerDay : Float) (s : String) : Option Float :=
  let cs := Text.trim s.toList
  match withoutUnit? "hours" "hour" cs with
  | some hours => (Number.read? hours).map fun h => h / hoursPerDay
  | none =>
    match withoutUnit? "days" "day" cs with
    | some days => Number.read? days
    | none => Number.read? cs

/-- A progress as a fraction of one: a percentage, a quotient or a bare number. -/
def readProgress? (s : String) : Option Float :=
  let cs := Text.trim s.toList
  match Text.before? ['%'] cs with
  | some percent => (Number.read? (Text.trim percent)).map fun p => p / 100
  | none =>
    match Text.cut? ['/'] cs with
    | some (numerator, denominator) => do
      let numerator ← Number.read? (Text.trim numerator)
      let denominator ← Number.read? (Text.trim denominator)
      some (numerator / denominator)
    | none => Number.read? cs

/-- A number or a text that `read` makes one, when it is finite. -/
def finiteNumber? (read : String → Option Float) (v : Value) : Option Value :=
  let number := match v with
    | .num n => some n.toFloat
    | .str s => read s
    | _ => none
  match number with
  | some x => if Number.isFinite x then some (.num (.real x)) else none
  | none => none

/-- A leaf as messages show it: texts without quotes. -/
def describe : Value → String
  | .str s => s
  | v => Json.text v

/-- A weekday by its full name; whatever names no weekday is kept. -/
def closedDay (v : Value) : Value :=
  match v with
  | .str s =>
    match Weekday.ofText? s with
    | some w => .str w.name
    | none => v
  | _ => v

def Rule.apply (hoursPerDay : Float) (v : Value) : Rule → Except ScheduleError Value
  | closedDay => .ok (Coercion.closedDay v)
  | period =>
    match finiteNumber? (readPeriod? hoursPerDay) v with
    | some w => .ok w
    | none => .error (.unsupportedPeriod (describe v))
  | progress =>
    match finiteNumber? readProgress? v with
    | some w => .ok w
    | none => .error (.unsupportedProgress (describe v))

/-- A leaf after the rule of its path, if there is one. -/
def coerceLeaf (hoursPerDay : Float) (path : Option String) (v : Value) :
    Except ScheduleError Value :=
  match rule? (path.getD "") with
  | some r => r.apply hoursPerDay v
  | none => .ok v

mutual

/-- Rewrites the leaves of the value at a path; the first leaf that cannot be rewritten fails. -/
def coerceAt (hoursPerDay : Float) (path : Option String) : Value → Except ScheduleError Value
  | .object fields => (coerceFields hoursPerDay path fields).map .object
  | .list items => (coerceItems hoursPerDay (extend path itemKey) items).map .list
  | .null => coerceLeaf hoursPerDay path .null
  | .bool b => coerceLeaf hoursPerDay path (.bool b)
  | .num n => coerceLeaf hoursPerDay path (.num n)
  | .str s => coerceLeaf hoursPerDay path (.str s)

def coerceFields (hoursPerDay : Float) (path : Option String) :
    List (String × Value) → Except ScheduleError (List (String × Value))
  | [] => .ok []
  | (key, v) :: rest => do
    let w ← coerceAt hoursPerDay (extend path key) v
    let ws ← coerceFields hoursPerDay path rest
    return (key, w) :: ws

def coerceItems (hoursPerDay : Float) (path : Option String) :
    List Value → Except ScheduleError (List Value)
  | [] => .ok []
  | v :: rest => do
    let w ← coerceAt hoursPerDay path v
    let ws ← coerceItems hoursPerDay path rest
    return w :: ws

end

def coerce (config : ChartConfig) (v : Value) : Except ScheduleError Value :=
  coerceAt config.hoursPerDay none v

end GanttChart.Coercion
