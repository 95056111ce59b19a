import GanttChart.Document.Basic
import GanttChart.Value

/-! Documents as structured values. What a record leaves open is left out, while lists are always
there, empty or not. -/

namespace GanttChart

/-- A field that is there only when it has a value. -/
def optionalField (key : String) (v : Option Value) : List (String × Value) :=
  match v with
  | some v => [(key, v)]
  | none => []

def Scalar.toValue : Scalar → Value
  | number x => .ofFloat x
  | text s => .str s

def PlanRange.toValue (r : PlanRange) : Value :=
  .ofFields (optionalField "start" (r.start.map .str) ++ optionalField "end" (r.finish.map .str)
    ++ optionalField "period" (r.period.map Scalar.toValue))

def PlanSpec.toValue : PlanSpec → Value
  | point day => .str day
  | range r => r.toValue

def ActualRange.toValue (r : ActualRange) : Value :=
  .ofFields (optionalField "start" (r.start.map .str) ++ optionalField "end" (r.finish.map .str)
    ++ optionalField "completed" (r.completed.map .str)
    ++ optionalField "period" (r.period.map Scalar.toValue)
    ++ optionalField "progress" (r.progress.map Scalar.toValue))

def ActualSpec.toValue : ActualSpec → Value
  | point day => .str day
  | range r => r.toValue

def TaskRecord.toValue (t : TaskRecord) : Value :=
  .ofFields (("name", .str t.name) :: (optionalField "text" (t.text.map .str)
    ++ optionalField "plan" (t.plan.map PlanSpec.toValue)
    ++ optionalField "actual" (t.actual.map ActualSpec.toValue)
    ++ optionalField "assignee" (t.assignee.map .str)))

def MilestoneRecord.toValue (m : MilestoneRecord) : Value :=
  .ofFields (("name", .str m.name) :: (optionalField "text" (m.text.map .str)
    ++ optionalField "plan" (m.plan.map PlanSpec.toValue)
    ++ optionalField "actual" (m.actual.map ActualSpec.toValue)))

def GroupRecord.toValue (g : GroupRecord) : Value :=
  .ofFields [("text", .str g.text), ("member", .strings g.member)]

def ProjectSection.toValue (p : ProjectSection) : Value :=
  .ofFields (("closed", .strings p.closed) :: (optionalField "start" (p.start.map .str)
    ++ optionalField "end" (p.finish.map .str) ++ optionalField "today" (p.today.map .str)
    ++ optionalField "scale" (p.scale.map fun s => .str s.name)))

def ColorStyle.toValue (c : ColorStyle) : Value :=
  .ofFields (optionalField "task" (c.task.map .str)
    ++ optionalField "milestone" (c.milestone.map .str) ++ optionalField "path" (c.path.map .str))

def Document.toValue (d : Document) : Value :=
  .ofFields
    [("project", d.project.toValue),
     ("style", .ofFields [("color", d.colors.toValue)]),
     ("task", .list (d.tasks.map TaskRecord.toValue)),
     ("milestone", .list (d.milestones.map MilestoneRecord.toValue)),
     ("group", .list (d.groups.map GroupRecord.toValue))]

end GanttChart
