import GanttChart.Day.Basic
import GanttChart.Text.Blank

/-! Days of the week. A weekday is named by any text whose first two letters, without regard to
case, are those of its English name. -/

namespace GanttChart

inductive Weekday where
  | monday
  | tuesday
  | wednesday
  | thursday
  | friday
  | saturday
  | sunday
  deriving DecidableEq

namespace Weekday

def all : List Weekday := [monday, tuesday, wednesday, thursday, friday, saturday, sunday]

def name : Weekday → String
  | monday => "Monday"
  | tuesday => "Tuesday"
  | wednesday => "Wednesday"
  | thursday => "Thursday"
  | friday => "Friday"
  | saturday => "Saturday"
  | sunday => "Sunday"

/-- The two-letter label of column headings. -/
def label : Weekday → String
  | monday => "Mo"
  | tuesday => "Tu"
  | wednesday => "We"
  | thursday => "Th"
  | friday => "Fr"
  | saturday => "Sa"
  | sunday => "Su"

def next : Weekday → Weekday
  | monday => tuesday
  | tuesday => wednesday
  | wednesday => thursday
  | thursday => friday
  | friday => saturday
  | saturday => sunday
  | sunday => monday

/-- The weekday whose label starts the text, blanks before it and the case of ASCII letters put
aside. -/
def ofText? (s : String) : Option Weekday :=
  let start := String.ofList ((Text.trim s.toList).take 2)
  all.find? fun w => Text.lowerAscii w.label == Text.lowerAscii start

/-- The weekdays from `first` to `last` going round the week, at most `steps` after the first. -/
def walk (first last : Weekday) : Nat → List Weekday
  | 0 => [first]
  | steps + 1 => if first = last then [first] else first :: walk first.next last steps

/-- The weekdays from `first` to `last`, both included; the week goes round from Sunday to
Monday. -/
def cycle (first last : Weekday) : List Weekday := walk first last 6

end Weekday

/-- The first day of 1970 is a Thursday. -/
def Day.weekday (d : Day) : Weekday :=
  match (d.number + 3) % 7 with
  | 0 => .monday
  | 1 => .tuesday
  | 2 => .wednesday
  | 3 => .thursday
  | 4 => .friday
  | 5 => .saturday
  | _ => .sunday

/-- The days of a span that fall on the weekday named by a text; none when it names no weekday. -/
def Day.spanOn (name : String) (first last : Day) : List Day :=
  match Weekday.ofText? name with
  | none => []
  | some w => (Day.span first last).filter fun d => d.weekday = w

end GanttChart
