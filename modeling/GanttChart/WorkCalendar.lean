import GanttChart.Day.Civil
import GanttChart.Day.Text
import GanttChart.Day.Weekday
import GanttChart.Number.Decimal
import GanttChart.Scale
import GanttChart.ScheduleError
import Std.Data.TreeSet

/-! Work calendars. A calendar is a window of days with some days closed, inside or outside the
window; every other day is open. Business days are counted from the day one stands on: an open day
is itself the first business day, so that a count of one stays where it is. -/

namespace GanttChart

structure WorkCalendar where
  start : Day
  finish : Day
  today : Day
  closed : Std.TreeSet Day
  scale : Scale

/-- The day on which the `count`-th open day is met, going from `d` and counting `d` itself; none
when the range of days ends before. -/
def Day.seekOpen? (isOpen : Day → Bool) (way : Heading) (count : Nat) (d : Day) : Option Day :=
  let left := if isOpen d then count - 1 else count
  if left = 0 then some d
  else
    match h : d.step? way with
    | none => none
    | some e =>
      have := Day.room_step? h
      Day.seekOpen? isOpen way left e
termination_by d.room way

namespace WorkCalendar

/-- A calendar without closed days. -/
def ofWindow (start finish today : Day) (scale : Scale) : WorkCalendar :=
  ⟨start, finish, today, ∅, scale⟩

def isClosed (c : WorkCalendar) (d : Day) : Bool := c.closed.contains d

def isOpen (c : WorkCalendar) (d : Day) : Bool := !c.isClosed d

def close (c : WorkCalendar) (d : Day) : WorkCalendar := { c with closed := c.closed.insert d }

def closeAll (c : WorkCalendar) (days : List Day) : WorkCalendar := days.foldl close c

/-- Closes every day of the window that falls on the weekday named by a text. -/
def closeWeekday (c : WorkCalendar) (name : String) : WorkCalendar :=
  c.closeAll (Day.spanOn name c.start c.finish)

def closedDays (c : WorkCalendar) : List Day := c.closed.toList

def days (c : WorkCalendar) : List Day := Day.span c.start c.finish

/-- How many days the window has, both ends included. -/
def dayCount (c : WorkCalendar) : Int := c.start.distance c.finish + 1

/-- How many open days there are from `first` on and before `bound`. -/
def countOpen (c : WorkCalendar) (first bound : Day) : Int :=
  if bound ≤ first then 0
  else first.distance bound - (c.closedDays.countP fun d => first ≤ d ∧ d < bound)

/-- The largest number of business days that one step may cover, about a thousand years. -/
def longestStep : Nat := 365250

/-- The day `count` business days from `d`, the sign giving the direction. A count of -1, 0 or 1
stays at `d`, open or closed. None when the count is too large or the days run out. -/
def step? (c : WorkCalendar) (d : Day) (count : Int) : Option Day :=
  if longestStep < count.natAbs then none
  else if count.natAbs ≤ 1 then some d
  else Day.seekOpen? c.isOpen (if count < 0 then .backward else .forward) count.natAbs d

/-- A number of days, rounded away from zero to a whole number; none for what is no finite
number. -/
def wholeDays? (days : Float) : Option Int :=
  (Number.Binary.ofFloat? days).map fun b => if b.negative then -(b.ceil : Int) else b.ceil

/-- The day a number of business days from `d`, fractions being rounded away from zero. -/
def addBusinessDays (c : WorkCalendar) (d : Day) (days : Float) : Except ScheduleError Day :=
  match (wholeDays? days).bind (c.step? d) with
  | some e => .ok e
  | none => .error (.unsupportedPeriod (Number.plainText days))

/-- The day a whole number of business days from `d`. -/
def addWholeDays (c : WorkCalendar) (d : Day) (count : Int) : Except ScheduleError Day :=
  match c.step? d count with
  | some e => .ok e
  | none => .error (.unsupportedPeriod (Number.plainText (Number.ofInt count)))

@[simp] theorem isClosed_close (c : WorkCalendar) (d e : Day) :
    (c.close d).isClosed e = (compare d e == .eq || c.isClosed e) := by
  simp [isClosed, close, Std.TreeSet.contains_insert]

end WorkCalendar

end GanttChart
