import GanttChart.Chart.Rendering
import GanttChart.Coercion
import GanttChart.Document.Decoding
import GanttChart.Document.Encoding
import GanttChart.Notation.Draft
import GanttChart.Schedule.Resolve
import GanttChart.Yaml.Reading

/-! Schedules from what was written down: the text is read as a structured value, its leaves are
coerced, the value is taken for a document, and the document is resolved. -/

namespace GanttChart

inductive Format where
  /-- The line-oriented schedule notation. -/
  | plain
  | json
  | yaml
  deriving DecidableEq

def Format.read : Format → String → Except ScheduleError Value
  | plain, s => .ok (Notation.document s).toValue
  | json, s =>
    match Json.read? s with
    | some v => .ok v
    | none => .error .malformedText
  | yaml, s =>
    match Yaml.read? s with
    | some v => .ok v
    | none => .error .malformedYaml

def Document.read (v : Value) : Except ScheduleError Document :=
  (Document.ofValue v).mapError .invalidShape

namespace Schedule

/-- The schedule drawn at another scale, if one is given. -/
def withScale (s : Schedule) : Option Scale → Schedule
  | some scale => { s with calendar := { s.calendar with scale := scale } }
  | none => s

/-- The schedule that a structured value describes. -/
def ofValue (v : Value) (config : ChartConfig) (scale : Option Scale) :
    Except ScheduleError Schedule := do
  let v ← Coercion.coerce config v
  let d ← Document.read v
  let s ← d.resolve config
  return s.withScale scale

def ofText (format : Format) (s : String) (config : ChartConfig) (scale : Option Scale) :
    Except ScheduleError Schedule := do
  ofValue (← format.read s) config scale

end Schedule

/-- The drawing of the schedule that a text describes. -/
def Drawing.ofText (format : Format) (s : String) (config : ChartConfig) (scale : Option Scale) :
    Except ScheduleError Drawing :=
  (Schedule.ofText format s config scale).map fun schedule => schedule.drawing config

end GanttChart
