import GanttChart.Document.Basic
import GanttChart.Plan
import GanttChart.WorkCalendar

/-! What has actually happened of a task, and where its progress so far leads. -/

namespace GanttChart

structure ActualDays where
  start : Option Day
  finish : Option Day
  completed : Option Day
  progress : Option Float

namespace ActualRange

/-- A day that may be left open but has to be a date when it is not. -/
def readDay (context : String) : Option String → Except ScheduleError (Option Day)
  | none => .ok none
  | some raw =>
    match Day.read? raw with
    | some d => .ok (some d)
    | none => .error (.invalidDate context raw)

def readProgress : Option Scalar → Except ScheduleError (Option Float)
  | none => .ok none
  | some (.number x) =>
    if Number.isFinite x then .ok (some x)
    else .error (.unsupportedProgress (Number.plainText x))
  | some (.text s) => .error (.unsupportedProgress s)

/-- The end that a period gives, if there is one. -/
def finishByPeriod (calendar : WorkCalendar) (start : Day) :
    Option Scalar → Except ScheduleError (Option Day)
  | none => .ok none
  | some period => do
    let days ← period.periodDays
    let d ← calendar.addBusinessDays start days
    return some d

/-- The end that a progress leads to: the open days before today are that fraction of the whole. -/
def finishByProgress (calendar : WorkCalendar) (start : Day) (progress : Float) :
    Except ScheduleError Day :=
  let elapsed := calendar.countOpen start calendar.today
  match calendar.addBusinessDays start (Number.ofInt elapsed / progress) with
  | .ok d => .ok d
  | .error _ => .error (.unsupportedProgress (Number.plainText progress))

/-- The days of an actual block. A period sets the end; a progress above zero then sets it anew and
marks the work as observed up to today. Without a start neither says anything. -/
def resolve (r : ActualRange) (calendar : WorkCalendar) (item : String) :
    Except ScheduleError ActualDays := do
  let start ← readDay (item ++ ".actual.start") r.start
  let finish ← readDay (item ++ ".actual.end") r.finish
  let completed ← readDay (item ++ ".actual.completed") r.completed
  let progress ← readProgress r.progress
  match start with
  | none => return ⟨none, finish, completed, progress⟩
  | some first =>
    let byPeriod ← finishByPeriod calendar first r.period
    let finish := byPeriod.or finish
    match progress with
    | none => return ⟨some first, finish, completed, none⟩
    | some p =>
      if p > 0 then
        let last ← finishByProgress calendar first p
        return ⟨some first, some last, some calendar.today, some p⟩
      else return ⟨some first, finish, completed, some p⟩

end ActualRange

end GanttChart
