import GanttChart.DateExpr
import GanttChart.Document.Basic
import GanttChart.WorkCalendar
import Std.Data.HashMap

/-! Plans with their days. Items are planned one after the other; a date that depends on another
item needs that item planned before. -/

namespace GanttChart

/-- The days of a planned item and the expressions of other items that they came from. -/
structure Plan where
  start : Day
  finish : Day
  startOrigin : Option DateExpr
  finishOrigin : Option DateExpr

/-- A connection from the day of one item to the day of another one that was derived from it. -/
structure DependencyPath where
  startName : String
  startDay : Day
  endName : String
  endDay : Day
  color : String
  deriving DecidableEq

def Scalar.periodDays : Scalar → Except ScheduleError Float
  | number x =>
    if Number.isFinite x then .ok x else .error (.unsupportedPeriod (Number.plainText x))
  | text s => .error (.unsupportedPeriod s)

/-- The plans made so far. -/
structure PlanTable where
  plans : Std.HashMap String Plan

namespace PlanTable

def empty : PlanTable := ⟨∅⟩

def get? (t : PlanTable) (name : String) : Option Plan := t.plans[name]?

def isPlanned (t : PlanTable) (name : String) : Bool := t.plans.contains name

/-- The plan of another item that an item refers to. -/
def dependency (t : PlanTable) (item reference : String) : Except ScheduleError Plan :=
  match t.get? reference with
  | some p => .ok p
  | none => .error (.unknownReference item reference)

/-- The day of an expression, and the expression itself when it depends on another item. The gap is
kept before the start and after the end of that item. -/
def resolveExpr (t : PlanTable) (calendar : WorkCalendar) (gap : Int) (item raw : String) :
    Except ScheduleError (Day × Option DateExpr) :=
  match DateExpr.read? raw with
  | none => .error (.invalidDate (item ++ ".plan") raw)
  | some (.literal d) => .ok (d, none)
  | some .projectStart => .ok (calendar.start, none)
  | some .projectEnd => .ok (calendar.finish, none)
  | some (.startOf name) => do
    let p ← t.dependency item name
    let d ← calendar.addWholeDays p.start (-gap)
    return (d, some (.startOf name))
  | some (.endOf name) => do
    let p ← t.dependency item name
    let d ← calendar.addWholeDays p.finish gap
    return (d, some (.endOf name))

def requirePart (field : String) : Option String → Except ScheduleError String
  | some s => .ok s
  | none => .error (.missingField field)

/-- The days of a range. A period counts from the start and wins over an end. -/
def resolveRange (t : PlanTable) (calendar : WorkCalendar) (gap : Int) (item : String)
    (range : PlanRange) : Except ScheduleError Plan := do
  let rawStart ← requirePart (item ++ ".plan.start") range.start
  let (start, startOrigin) ← t.resolveExpr calendar gap item rawStart
  match range.period with
  | some period =>
    let days ← period.periodDays
    let finish ← calendar.addBusinessDays start days
    return ⟨start, finish, startOrigin, none⟩
  | none =>
    let rawFinish ← requirePart (item ++ ".plan.end") range.finish
    let (finish, finishOrigin) ← t.resolveExpr calendar gap item rawFinish
    return ⟨start, finish, startOrigin, finishOrigin⟩

/-- Plans an item. One that is planned already keeps its plan, whatever the range says. -/
def resolve (t : PlanTable) (calendar : WorkCalendar) (gap : Int) (item : String)
    (range : PlanRange) : Except ScheduleError PlanTable :=
  if t.isPlanned item then .ok t
  else (t.resolveRange calendar gap item range).map fun p => ⟨t.plans.insert item p⟩

/-- The connection behind one day of an item, when that day depends on another item. -/
def path? (t : PlanTable) (item color : String) (origin : Option DateExpr) (d : Day) :
    Option DependencyPath :=
  match origin with
  | some (.startOf name) => (t.get? name).map fun p => ⟨name, p.start, item, d, color⟩
  | some (.endOf name) => (t.get? name).map fun p => ⟨name, p.finish, item, d, color⟩
  | _ => none

/-- The connections behind the start and the end of a planned item. -/
def paths (t : PlanTable) (item color : String) : List DependencyPath :=
  match t.get? item with
  | none => []
  | some p =>
    (t.path? item color p.startOrigin p.start).toList
      ++ (t.path? item color p.finishOrigin p.finish).toList

end PlanTable

end GanttChart
