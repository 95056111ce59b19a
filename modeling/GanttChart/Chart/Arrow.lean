import GanttChart.Chart.Sheet

/-! Dependency arrows. An arrow goes from the column of one day to the column of another in two
legs with a right angle between them. Down the chart it leaves its source at the bottom and enters
its target from the side, otherwise it leaves from the side and enters its target from below. -/

namespace GanttChart

/-- The way a leg goes. -/
inductive Course where
  | right
  | down
  | left
  | up
  deriving DecidableEq

/-- How far an arrowhead that points to the right is turned. -/
def Course.degrees : Course → Float
  | right => 0
  | down => 90
  | left => 180
  | up => 270

structure Route where
  start : Point
  corner : Point
  finish : Point
  /-- The way of the last leg. -/
  arrival : Course

namespace Route

/-- A route between two cells given by their upper left corners. -/
def between (layout : Layout) (source target : Point) (forward : Bool) : Route :=
  let w := layout.columnWidth
  let h := layout.rowHeight
  if source.y < target.y then
    let x := source.x + w / 2
    let y := target.y + h / 2
    { start := ⟨x, source.y + h⟩
      corner := ⟨x, y⟩
      finish := ⟨if forward then target.x else target.x + w, y⟩
      arrival := if forward then .right else .left }
  else
    let x := target.x + w / 2
    let y := source.y + h / 2
    { start := ⟨if forward then source.x + w else source.x, y⟩
      corner := ⟨x, y⟩
      finish := ⟨x, target.y + h⟩
      arrival := .up }

end Route

def arrowheadId : String := "arrowhead"

/-- An arrowhead that points to the right, with its tip on the origin. -/
def arrowhead : Primitive :=
  .group (some arrowheadId) (some ⟨⟨-5, -5⟩, 0⟩)
    [.polyline [⟨0, 0⟩, ⟨0, 10⟩, ⟨5, 5⟩, ⟨0, 0⟩] none none]

/-- The two legs of a route and the arrowhead at its end. -/
def Route.arrow (r : Route) (id color : String) : Primitive :=
  let stroke := Stroke.solid color 2
  .group (some id) none
    [.line r.start r.corner stroke, .line r.corner r.finish stroke,
     .group none (some ⟨r.finish, r.arrival.degrees⟩) [.use ("#" ++ arrowheadId) (some color)]]

namespace DependencyPath

def id (p : DependencyPath) : String := "path-" ++ p.startName ++ "-to-" ++ p.endName

/-- The route between two items whose rows have the given tops. -/
def route (p : DependencyPath) (layout : Layout) (startY endY : Float) : Route :=
  .between layout ⟨layout.x p.startDay, startY⟩ ⟨layout.x p.endDay, endY⟩ (p.startDay < p.endDay)

/-- The arrow of a path; `top?` gives the top of the row of an item, and without a row on both
sides there is no arrow. -/
def arrow? (p : DependencyPath) (layout : Layout) (top? : String → Option Float) :
    Option Primitive :=
  match top? p.startName, top? p.endName with
  | some startY, some endY => some ((p.route layout startY endY).arrow p.id p.color)
  | _, _ => none

end DependencyPath

end GanttChart
