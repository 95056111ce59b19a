import GanttChart.Drawing
import GanttChart.Value

/-! Drawings as structured values. Every part is there, null when it is open, except that a solid
stroke has no dash at all. -/

namespace GanttChart

def Point.toValue (p : Point) : Value := .ofFields [("x", .ofFloat p.x), ("y", .ofFloat p.y)]

def Stroke.toValue (s : Stroke) : Value :=
  .ofFields ([("color", .str s.color), ("width", .ofFloat s.width)]
    ++ (s.dash.map fun d => ("dash", Value.str d)).toList)

def Anchor.name : Anchor → String
  | start => "start"
  | middle => "middle"

def Baseline.name : Baseline → String
  | hanging => "hanging"
  | middle => "middle"

def TextStyle.toValue (s : TextStyle) : Value :=
  .ofFields
    [("font_family", .str s.fontFamily), ("font_size", .ofFloat s.fontSize),
     ("bold", .bool s.bold), ("fill", .str s.fill), ("anchor", .str s.anchor.name),
     ("baseline", .str s.baseline.name)]

def Transform.toValue (t : Transform) : Value :=
  .ofFields [("translate", t.translate.toValue), ("rotate", .ofFloat t.rotate)]

namespace Primitive

def textOrNull (s : Option String) : Value := .orNull (s.map .str)

def strokeOrNull (s : Option Stroke) : Value := .orNull (s.map Stroke.toValue)

mutual

/-- A primitive is tagged with its type. -/
def toValue : Primitive → Value
  | line start finish stroke =>
    .ofFields [("type", .str "line"), ("from", start.toValue), ("to", finish.toValue),
      ("stroke", stroke.toValue)]
  | rect origin width height radius fill stroke =>
    .ofFields [("type", .str "rect"), ("origin", origin.toValue), ("width", .ofFloat width),
      ("height", .ofFloat height), ("radius", .ofFloat radius), ("fill", .str fill),
      ("stroke", strokeOrNull stroke)]
  | polyline points fill stroke =>
    .ofFields [("type", .str "polyline"), ("points", .list (points.map Point.toValue)),
      ("fill", textOrNull fill), ("stroke", strokeOrNull stroke)]
  | text origin content style =>
    .ofFields [("type", .str "text"), ("origin", origin.toValue), ("content", .str content),
      ("style", style.toValue)]
  | group id transform children =>
    .ofFields [("type", .str "group"), ("id", textOrNull id),
      ("transform", .orNull (transform.map Transform.toValue)),
      ("children", .list (toValues children))]
  | use href fill =>
    .ofFields [("type", .str "use"), ("href", .str href), ("fill", textOrNull fill)]

def toValues : List Primitive → List Value
  | [] => []
  | p :: rest => p.toValue :: toValues rest

end

end Primitive

def Element.toValue (e : Element) : Value :=
  .ofFields [("z", .ofInt e.layer), ("primitive", e.primitive.toValue)]

def Drawing.toValue (d : Drawing) : Value :=
  .ofFields
    [("width", .ofFloat d.width), ("height", .ofFloat d.height),
     ("defs", .list (d.symbols.map Primitive.toValue)),
     ("elements", .list (d.elements.map Element.toValue))]

end GanttChart
