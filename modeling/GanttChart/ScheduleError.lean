import GanttChart.ShapeError

/-! Why a schedule cannot be drawn. -/

namespace GanttChart

inductive ScheduleError where
  /-- A text that is no date, where `context` wants one. -/
  | invalidDate (context value : String)
  | missingField (field : String)
  | duplicateName (name : String)
  /-- The names of all items that refer back to themselves. -/
  | dependencyLoop (names : List String)
  | unknownReference (item reference : String)
  | unsupportedPeriod (value : String)
  | unsupportedProgress (value : String)
  /-- A structured value that is no schedule document. -/
  | invalidShape (cause : ShapeError)
  /-- A text that is no structured value. -/
  | malformedText
  /-- A text that is no YAML document. -/
  | malformedYaml

namespace ScheduleError

def message : ScheduleError → String
  | invalidDate context value => "invalid date '" ++ value ++ "' for " ++ context
  | missingField field => "missing required field " ++ field
  | duplicateName name => "'" ++ name ++ "' is duplicated"
  | dependencyLoop names => "the dependencies are looped: " ++ String.intercalate ", " names
  | unknownReference item reference =>
    "'" ++ item ++ "' refers to '" ++ reference ++ "', which does not exist"
  | unsupportedPeriod value => "unsupported period: " ++ value
  | unsupportedProgress value => "unsupported progress: " ++ value
  | invalidShape cause => "invalid document: " ++ cause.message
  | malformedText => "invalid document: malformed text"
  | malformedYaml => "invalid document: malformed text"

end ScheduleError

end GanttChart
