import GanttChart.Actual
import GanttChart.ChartConfig
import GanttChart.DependencyGraph
import GanttChart.Document.Basic
import GanttChart.Schedule.Basic

/-! Resolving a document: the calendar first, then the names, the loops, the plans in an order that
respects dependencies, and last the actual days. The first fault in that order is reported. -/

namespace GanttChart

inductive Entry where
  | task (t : TaskRecord)
  | milestone (m : MilestoneRecord)

/-- A milestone happens on one day, so a lone start or a lone end stands for both. -/
def PlanRange.forMilestone (r : PlanRange) : PlanRange :=
  match r.start, r.finish with
  | some s, none => if r.period.isNone then { r with finish := some s } else r
  | none, some f => { r with start := some f }
  | _, _ => r

/-- The names that the start and the end of a range refer to. -/
def PlanRange.references (r : PlanRange) : List String :=
  (r.start.toList ++ r.finish.toList).filterMap fun s =>
    (DateExpr.read? s).bind DateExpr.reference?

namespace Entry

def name : Entry → String
  | task t => t.name
  | milestone m => m.name

def range? : Entry → Option PlanRange
  | task t => t.plan.map PlanSpec.toRange
  | milestone m => m.plan.map fun p => p.toRange.forMilestone

/-- The names that the plan of an item refers to. -/
def references (e : Entry) : List String :=
  match e.range? with
  | none => []
  | some r => r.references

end Entry

namespace Document

def entries (d : Document) : List Entry := d.tasks.map .task ++ d.milestones.map .milestone

end Document

namespace ProjectSection

def requireDay (field : String) : Option String → Except ScheduleError Day
  | none => .error (.missingField ("project." ++ field))
  | some raw =>
    match Day.read? raw with
    | some d => .ok d
    | none => .error (.invalidDate ("project." ++ field) raw)

/-- Closes what one entry names: a date, else a weekday of the window, else nothing. -/
def closeEntry (c : WorkCalendar) (entry : String) : WorkCalendar :=
  match Day.read? entry with
  | some d => c.close d
  | none => c.closeWeekday entry

def calendar (p : ProjectSection) : Except ScheduleError WorkCalendar := do
  let start ← requireDay "start" p.start
  let finish ← requireDay "end" p.finish
  let today ← requireDay "today" p.today
  if finish < start then
    throw (.invalidDate "project.end (before project.start)" (p.finish.getD ""))
  return p.closed.foldl closeEntry (.ofWindow start finish today (p.scale.getD .daily))

end ProjectSection

structure Palette where
  task : ColorSet
  milestone : ColorSet
  path : String

/-- The standard colors after the overrides of a document; blank overrides change nothing, and of
the overrides for paths only the first color counts. -/
def ColorStyle.palette (style : ColorStyle) (config : ChartConfig) : Palette :=
  let overridden (list : Option String) : ColorSet :=
    match list with
    | some s => if Text.isBlankText s then config.defaultColors else config.defaultColors.override s
    | none => config.defaultColors
  { task := overridden style.task
    milestone := overridden style.milestone
    path :=
      match style.path with
      | some s =>
        if Text.isBlankText s then config.defaultPathColor
        else ((Text.fieldsOf '/' (Text.trimmed s)).head?).getD (Text.trimmed s)
      | none => config.defaultPathColor }

namespace Entry

/-- The first name that occurs a second time or is among the seen ones. -/
def seenAgain? (seen : Std.HashSet String) : List Entry → Option String
  | [] => none
  | e :: rest => if seen.contains e.name then some e.name else seenAgain? (seen.insert e.name) rest

def repeated? (entries : List Entry) : Option String := seenAgain? ∅ entries

/-- A graph with the dependencies of one more item; references to names that are no nodes are left
out. -/
def connect (g : DependencyGraph) (e : Entry) : DependencyGraph :=
  e.references.foldl (fun g r => (g.connect? r e.name).getD g) g

def graph (entries : List Entry) : DependencyGraph :=
  entries.foldl connect (.ofNames (entries.map name))

/-- Plans the item with the given name, unless there is none. -/
def plan (entries : List Entry) (calendar : WorkCalendar) (gap : Int) (table : PlanTable)
    (item : String) : Except ScheduleError PlanTable :=
  if table.isPlanned item then .ok table
  else
    match entries.find? fun e => e.name == item with
    | none => .ok table
    | some e =>
      match e.range? with
      | none => .error (.missingField (item ++ ".plan"))
      | some range => table.resolve calendar gap item range

def plans (entries : List Entry) (calendar : WorkCalendar) (gap : Int) :
    Except ScheduleError PlanTable :=
  (graph entries).resolutionOrder.foldlM (plan entries calendar gap) .empty

/-- The actual days of a task; those that it says nothing about stay open. -/
def actualDays (calendar : WorkCalendar) (t : TaskRecord) : Except ScheduleError ActualDays :=
  match t.actual with
  | none => .ok ⟨none, none, none, none⟩
  | some a => a.toRange.resolve calendar t.name

def resolve (e : Entry) (calendar : WorkCalendar) (palette : Palette) (table : PlanTable) :
    Except ScheduleError ScheduleItem :=
  match table.get? e.name with
  | none => .error (.missingField (e.name ++ ".plan"))
  | some plan =>
    match e with
    | task t => do
      let actual ← actualDays calendar t
      return .task
        { name := t.name
          text := t.text.getD t.name
          planStart := plan.start
          planEnd := plan.finish
          colors := palette.task
          actualStart := actual.start
          actualCompleted := actual.completed
          actualProgress := actual.progress
          actualEnd := actual.finish
          assignee := t.assignee }
    | milestone m => do
      let actual ← ActualRange.readDay (m.name ++ ".actual") (m.actual.bind ActualSpec.day?)
      return .milestone
        { name := m.name
          text := m.text.getD m.name
          planDay := plan.start
          colors := palette.milestone
          actualDay := actual }

end Entry

/-- The declared groups without the names of no item, after a group without text for the items that
are in none of them. -/
def Document.scheduleGroups (d : Document) (names : List String) : List Group :=
  let declared : List Group := d.groups.map fun g => ⟨g.text, g.member.filter names.contains⟩
  let placed := declared.flatMap Group.member
  ⟨"", names.filter fun n => !placed.contains n⟩ :: declared

def Document.resolve (d : Document) (config : ChartConfig) : Except ScheduleError Schedule := do
  let calendar ← d.project.calendar
  let palette := d.colors.palette config
  let entries := d.entries
  match Entry.repeated? entries with
  | some name => throw (.duplicateName name)
  | none => pure ()
  let graph := Entry.graph entries
  if graph.isCyclic then throw (.dependencyLoop graph.looped)
  let table ← Entry.plans entries calendar config.dependencyGapDays
  let paths := (entries.flatMap fun e => table.paths e.name palette.path).eraseDups
  let items ← entries.mapM fun e => e.resolve calendar palette table
  return ⟨calendar, items, paths, d.scheduleGroups (entries.map Entry.name)⟩

end GanttChart
