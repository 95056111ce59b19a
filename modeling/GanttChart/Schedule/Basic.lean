import GanttChart.Color
import GanttChart.Plan
import GanttChart.WorkCalendar

/-! Resolved schedules: every item has its days and colors, and every item is in a group. -/

namespace GanttChart

structure Task where
  name : String
  text : String
  planStart : Day
  planEnd : Day
  colors : ColorSet
  actualStart : Option Day
  actualCompleted : Option Day
  /-- The fraction of the work that is done; one means all of it, and more is kept as given. -/
  actualProgress : Option Float
  actualEnd : Option Day
  assignee : Option String

structure Milestone where
  name : String
  text : String
  planDay : Day
  colors : ColorSet
  actualDay : Option Day

inductive ScheduleItem where
  | task (t : Task)
  | milestone (m : Milestone)

/-- A group without a text is not labeled and has no header. -/
structure Group where
  text : String
  member : List String
  deriving DecidableEq

structure Schedule where
  calendar : WorkCalendar
  items : List ScheduleItem
  paths : List DependencyPath
  /-- The first group has no text and takes the items that are in no other group. -/
  groups : List Group

def Task.label (t : Task) : String :=
  match t.assignee with
  | some a => t.text ++ "@" ++ a
  | none => t.text

namespace ScheduleItem

def name : ScheduleItem → String
  | task t => t.name
  | milestone m => m.name

def planStart : ScheduleItem → Day
  | task t => t.planStart
  | milestone m => m.planDay

def planEnd : ScheduleItem → Day
  | task t => t.planEnd
  | milestone m => m.planDay

def task? : ScheduleItem → Option Task
  | task t => some t
  | milestone _ => none

def milestone? : ScheduleItem → Option Milestone
  | task _ => none
  | milestone m => some m

end ScheduleItem

def Group.isLabeled (g : Group) : Bool := !g.text.isEmpty

namespace Schedule

def find? (s : Schedule) (name : String) : Option ScheduleItem :=
  s.items.find? fun i => i.name == name

def labeledGroupCount (s : Schedule) : Nat := s.groups.countP Group.isLabeled

end Schedule

end GanttChart
