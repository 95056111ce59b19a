import GanttChart.Scale

/-! Schedule documents. Dates are still text and periods may be, until a document has been coerced
and resolved. -/

namespace GanttChart

/-- A number, or a text that may stand for one. -/
inductive Scalar where
  | number (x : Float)
  | text (s : String)

structure PlanRange where
  start : Option String
  finish : Option String
  period : Option Scalar

/-- A plan is a single day or a range. -/
inductive PlanSpec where
  | point (day : String)
  | range (r : PlanRange)

structure ActualRange where
  start : Option String
  finish : Option String
  completed : Option String
  period : Option Scalar
  progress : Option Scalar

inductive ActualSpec where
  | point (day : String)
  | range (r : ActualRange)

structure TaskRecord where
  name : String
  text : Option String
  plan : Option PlanSpec
  actual : Option ActualSpec
  assignee : Option String

structure MilestoneRecord where
  name : String
  text : Option String
  plan : Option PlanSpec
  actual : Option ActualSpec

structure GroupRecord where
  text : String
  member : List String

structure ProjectSection where
  start : Option String
  finish : Option String
  today : Option String
  closed : List String
  scale : Option Scale

/-- Color overrides by what they apply to, each a list with slashes between the colors. -/
structure ColorStyle where
  task : Option String
  milestone : Option String
  path : Option String

structure Document where
  project : ProjectSection
  colors : ColorStyle
  tasks : List TaskRecord
  milestones : List MilestoneRecord
  groups : List GroupRecord

namespace PlanRange

def empty : PlanRange := ⟨none, none, none⟩

end PlanRange

namespace PlanSpec

/-- The plan as a range; a point starts and ends on its day. -/
def toRange : PlanSpec → PlanRange
  | point day => ⟨some day, some day, none⟩
  | range r => r

/-- The range to go on filling; a point is given up for an empty one. -/
def openRange : Option PlanSpec → PlanRange
  | some (range r) => r
  | _ => .empty

end PlanSpec

namespace ActualRange

def empty : ActualRange := ⟨none, none, none, none, none⟩

end ActualRange

namespace ActualSpec

/-- The range to go on filling; a point is given up for an empty one. -/
def openRange : Option ActualSpec → ActualRange
  | some (range r) => r
  | _ => .empty

/-- The block as a range; a point is a start without an end. -/
def toRange : ActualSpec → ActualRange
  | point day => { ActualRange.empty with start := some day }
  | range r => r

/-- The single day of a milestone: the point, or the start of a range. -/
def day? (a : ActualSpec) : Option String := a.toRange.start

end ActualSpec

/-- A task of which nothing but the name is known. -/
def TaskRecord.named (name : String) : TaskRecord := ⟨name, none, none, none, none⟩

/-- A milestone of which nothing but the name is known. -/
def MilestoneRecord.named (name : String) : MilestoneRecord := ⟨name, none, none, none⟩

def ProjectSection.empty : ProjectSection := ⟨none, none, none, [], none⟩

def ColorStyle.empty : ColorStyle := ⟨none, none, none⟩

def Document.empty : Document := ⟨.empty, .empty, [], [], []⟩

end GanttChart
