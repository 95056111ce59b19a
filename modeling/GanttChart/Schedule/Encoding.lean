import GanttChart.Schedule.Basic

/-! Resolved schedules as structured values. Days are in ISO form and open parts are null. -/

namespace GanttChart

def Day.toValue (d : Day) : Value := .str d.isoText

def optionalText (s : Option String) : Value := .orNull (s.map .str)

def optionalDay (d : Option Day) : Value := .orNull (d.map Day.toValue)

def WorkCalendar.toValue (c : WorkCalendar) : Value :=
  .ofFields
    [("start", c.start.toValue), ("end", c.finish.toValue), ("today", c.today.toValue),
     ("closed", .list (c.closedDays.map Day.toValue)), ("scale", .str c.scale.name)]

def Task.toValue (t : Task) : Value :=
  .ofFields
    [("kind", .str "task"), ("name", .str t.name), ("text", .str t.text),
     ("plan_start", t.planStart.toValue), ("plan_end", t.planEnd.toValue),
     ("colors", t.colors.toValue), ("actual_start", optionalDay t.actualStart),
     ("actual_completed", optionalDay t.actualCompleted),
     ("actual_progress", .orNull (t.actualProgress.map .ofFloat)),
     ("actual_end", optionalDay t.actualEnd), ("assignee", optionalText t.assignee)]

def Milestone.toValue (m : Milestone) : Value :=
  .ofFields
    [("kind", .str "milestone"), ("name", .str m.name), ("text", .str m.text),
     ("plan_happen", m.planDay.toValue), ("colors", m.colors.toValue),
     ("actual_happen", optionalDay m.actualDay)]

def ScheduleItem.toValue : ScheduleItem → Value
  | task t => t.toValue
  | milestone m => m.toValue

def DependencyPath.toValue (p : DependencyPath) : Value :=
  .ofFields
    [("start_name", .str p.startName), ("start_date", p.startDay.toValue),
     ("end_name", .str p.endName), ("end_date", p.endDay.toValue), ("color", .str p.color)]

def Group.toValue (g : Group) : Value :=
  .ofFields [("text", .str g.text), ("member", .strings g.member)]

def Schedule.toValue (s : Schedule) : Value :=
  .ofFields
    [("calendar", s.calendar.toValue), ("schedules", .list (s.items.map ScheduleItem.toValue)),
     ("dependency_paths", .list (s.paths.map DependencyPath.toValue)),
     ("groups", .list (s.groups.map Group.toValue))]

end GanttChart
