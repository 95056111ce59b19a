import GanttChart.Day.Text
import GanttChart.Text.Cut

/-! Date expressions: a date as such, a bound of the project, or a bound of another item. -/

namespace GanttChart

inductive DateExpr where
  | literal (d : Day)
  | projectStart
  | projectEnd
  | startOf (name : String)
  | endOf (name : String)
  deriving DecidableEq

namespace DateExpr

/-- How a reference to the start of something ends. -/
def startSuffix : List Char := "'s start".toList

/-- How a reference to the end of something ends. -/
def endSuffix : List Char := "'s end".toList

/-- The name under which expressions refer to the project. -/
def projectName : String := "project"

/-- Reads an expression, blanks around it put aside. -/
def read? (s : String) : Option DateExpr :=
  let cs := Text.trim s.toList
  match Text.before? startSuffix cs with
  | some name =>
    let name := String.ofList name
    some (if name = projectName then projectStart else startOf name)
  | none =>
    match Text.before? endSuffix cs with
    | some name =>
      let name := String.ofList name
      some (if name = projectName then projectEnd else endOf name)
    | none => (Day.read? (String.ofList cs)).map literal

/-- Whether a text is a date or ends like a reference. -/
def isAcceptable (s : String) : Bool :=
  let cs := Text.trim s.toList
  (Day.read? (String.ofList cs)).isSome || (Text.before? startSuffix cs).isSome
    || (Text.before? endSuffix cs).isSome

def reference? : DateExpr → Option String
  | startOf name => some name
  | endOf name => some name
  | _ => none

/-- What is acceptable is exactly what can be read. -/
theorem isSome_read? (s : String) : (read? s).isSome = isAcceptable s := by
  simp only [read?, isAcceptable]
  cases h1 : Text.before? startSuffix (Text.trim s.toList) <;>
    cases h2 : Text.before? endSuffix (Text.trim s.toList) <;> simp

end DateExpr

end GanttChart
