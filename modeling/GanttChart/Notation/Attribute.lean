import GanttChart.DateExpr
import GanttChart.Document.Basic
import GanttChart.Number.Reader

/-! Attribute lines and what they do to the item they belong to. -/

namespace GanttChart

namespace Notation

/-- The part of a plan or of an actual block that an attribute sets. -/
inductive Marker where
  | start
  | finish
  | period
  | point
  deriving DecidableEq

inductive Attribute where
  | plan (marker : Marker) (value : String)
  | actual (marker : Marker) (value : String)
  | progress (value : String)
  | assignee (value : String)
  deriving DecidableEq

def Marker.ofChar? : Char → Option Marker
  | '>' => some .start
  | '<' => some .finish
  | '=' => some .period
  | '!' => some .point
  | _ => none

/-- Whether a marker takes a value: a period ends in the word for days, everything else is a date
expression. -/
def Marker.accepts (marker : Marker) (value : String) : Bool :=
  match marker with
  | .period => (Text.before? "days".toList value.toList).isSome
  | _ => DateExpr.isAcceptable value

/-- Whether a text may be a progress: a percentage, a fraction or a number. -/
def isProgress (value : String) : Bool :=
  (Text.before? ['%'] value.toList).isSome || (Text.fields '/' value.toList).length == 2
    || (Number.read? value.toList).isSome

namespace Attribute

/-- A marker and a value it accepts, blanks around the value dropped. -/
def marked? : List Char → Option (Marker × String)
  | [] => none
  | c :: rest =>
    match Marker.ofChar? c with
    | none => none
    | some marker =>
      let value := String.ofList (Text.trim rest)
      if marker.accepts value then some (marker, value) else none

/-- Reads what follows the indentation of an attribute line. The plan has a short form and one
with a further angle bracket in front. -/
def read? (body : List Char) : Option Attribute :=
  match body with
  | '@' :: rest => some (assignee (String.ofList (Text.trim rest)))
  | '.' :: '-' :: rest =>
    let value := String.ofList (Text.trim rest)
    if isProgress value then some (progress value) else none
  | '.' :: rest => (marked? rest).map fun (marker, value) => actual marker value
  | '>' :: c :: rest =>
    (marked? (if (Marker.ofChar? c).isSome then c :: rest else '>' :: c :: rest)).map
      fun (marker, value) => plan marker value
  | rest => (marked? rest).map fun (marker, value) => plan marker value

/-- The plan after an attribute has set part of it. -/
def onPlan (marker : Marker) (value : String) (plan : Option PlanSpec) : PlanSpec :=
  let range := PlanSpec.openRange plan
  match marker with
  | .point => .point value
  | .start => .range { range with start := some value }
  | .finish => .range { range with finish := some value }
  | .period => .range { range with period := some (.text value) }

/-- The actual block after an attribute has set part of it. -/
def onActual (marker : Marker) (value : String) (block : Option ActualSpec) : ActualSpec :=
  let range := ActualSpec.openRange block
  match marker with
  | .point => .point value
  | .start => .range { range with start := some value }
  | .finish => .range { range with finish := some value }
  | .period => .range { range with period := some (.text value) }

def onProgress (value : String) (block : Option ActualSpec) : ActualSpec :=
  .range { ActualSpec.openRange block with progress := some (.text value) }

end Attribute

end Notation

open Notation (Attribute)

namespace TaskRecord

def apply (t : TaskRecord) : Attribute → TaskRecord
  | .plan marker value => { t with plan := some (Attribute.onPlan marker value t.plan) }
  | .actual marker value => { t with actual := some (Attribute.onActual marker value t.actual) }
  | .progress value => { t with actual := some (Attribute.onProgress value t.actual) }
  | .assignee value => { t with assignee := some value }

/-- A task can be drawn once it has a start and an end or a period. -/
def isReady (t : TaskRecord) : Bool :=
  match t.plan with
  | some (.range r) => r.start.isSome && (r.finish.isSome || r.period.isSome)
  | _ => false

end TaskRecord

namespace MilestoneRecord

/-- Nobody is assigned to a milestone. -/
def apply (m : MilestoneRecord) : Attribute → MilestoneRecord
  | .plan marker value => { m with plan := some (Attribute.onPlan marker value m.plan) }
  | .actual marker value => { m with actual := some (Attribute.onActual marker value m.actual) }
  | .progress value => { m with actual := some (Attribute.onProgress value m.actual) }
  | .assignee _ => m

/-- A milestone can be drawn once its plan says anything. -/
def isReady (m : MilestoneRecord) : Bool :=
  match m.plan with
  | some (.point _) => true
  | some (.range r) => r.start.isSome || r.finish.isSome || r.period.isSome
  | none => false

end MilestoneRecord

end GanttChart
