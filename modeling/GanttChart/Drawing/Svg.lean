import GanttChart.Drawing
import GanttChart.Markup
import GanttChart.Number.Decimal

/-! Drawings as SVG. Every primitive is one element; what is open has no attribute. Texts are
escaped one by one, and numbers are written as they are. -/

namespace GanttChart

open Markup (attributeText escape optionalText)
open Number (plainText)

namespace Stroke

def attributes (s : Stroke) : String :=
  attributeText "stroke" (escape s.color) ++ attributeText "stroke-width" (plainText s.width)
    ++ optionalText "stroke-dasharray" (s.dash.map escape)

end Stroke

namespace Transform

/-- A shift, and a turn unless there is none. -/
def text (t : Transform) : String :=
  let shift := "translate(" ++ plainText t.translate.x ++ ", " ++ plainText t.translate.y ++ ")"
  if t.rotate == 0 then shift else shift ++ " rotate(" ++ plainText t.rotate ++ ")"

end Transform

/-- The start of a text is its anchor unless it says otherwise. -/
def Anchor.text? : Anchor → Option String
  | .start => none
  | .middle => some "middle"

def Baseline.text : Baseline → String
  | .hanging => "hanging"
  | .middle => "middle"

namespace TextStyle

def attributes (s : TextStyle) : String :=
  attributeText "font-family" (escape s.fontFamily)
    ++ attributeText "font-size" (plainText s.fontSize)
    ++ (if s.bold then attributeText "font-weight" "bold" else "")
    ++ attributeText "fill" (escape s.fill) ++ attributeText "dominant-baseline" s.baseline.text
    ++ optionalText "text-anchor" s.anchor.text?

end TextStyle

namespace Primitive

def strokeAttributes (s : Option Stroke) : String :=
  match s with
  | some s => s.attributes
  | none => ""

def fillAttribute (fill : Option String) : String := optionalText "fill" (fill.map escape)

def pointsText (points : List Point) : String :=
  String.intercalate " " (points.map fun p => plainText p.x ++ "," ++ plainText p.y)

/-- Corners are rounded only by a radius above zero. -/
def cornerAttributes (radius : Float) : String :=
  if radius > 0 then attributeText "rx" (plainText radius) ++ attributeText "ry" (plainText radius)
  else ""

def groupAttributes (id : Option String) (transform : Option Transform) : String :=
  optionalText "id" (id.map escape) ++ optionalText "transform" (transform.map Transform.text)

mutual

/-- Writes a primitive behind what is written already. -/
def write (out : String) : Primitive → String
  | line start finish stroke =>
    out ++ ("<line" ++ attributeText "x1" (plainText start.x)
      ++ attributeText "y1" (plainText start.y) ++ attributeText "x2" (plainText finish.x)
      ++ attributeText "y2" (plainText finish.y) ++ stroke.attributes ++ " />")
  | rect origin width height radius fill stroke =>
    out ++ ("<rect" ++ attributeText "x" (plainText origin.x)
      ++ attributeText "y" (plainText origin.y) ++ attributeText "width" (plainText width)
      ++ attributeText "height" (plainText height) ++ cornerAttributes radius
      ++ attributeText "fill" (escape fill) ++ strokeAttributes stroke ++ " />")
  | polyline points fill stroke =>
    out ++ ("<polyline" ++ attributeText "points" (pointsText points) ++ fillAttribute fill
      ++ strokeAttributes stroke ++ " />")
  | text origin content style =>
    out ++ ("<text" ++ attributeText "x" (plainText origin.x)
      ++ attributeText "y" (plainText origin.y) ++ style.attributes ++ ">" ++ escape content
      ++ "</text>")
  | group id transform children =>
    writeAll (out ++ ("<g" ++ groupAttributes id transform ++ ">")) children ++ "</g>"
  | use href fill =>
    out ++ ("<use" ++ attributeText "xlink:href" (escape href) ++ fillAttribute fill ++ " />")

def writeAll (out : String) : List Primitive → String
  | [] => out
  | p :: rest => writeAll (p.write out) rest

end

end Primitive

namespace Drawing

/-- What stands before the root element. -/
def declaration : String := "<?xml version=\"1.0\" encoding=\"utf-8\" ?>\n"

def rootAttributes (d : Drawing) : String :=
  attributeText "xmlns" "http://www.w3.org/2000/svg"
    ++ attributeText "xmlns:xlink" "http://www.w3.org/1999/xlink" ++ attributeText "version" "1.1"
    ++ attributeText "width" (plainText d.width ++ "px")
    ++ attributeText "height" (plainText d.height ++ "px")

/-- The root element has first the symbols and then the elements in their order. -/
def svg (d : Drawing) : String :=
  let head := declaration ++ "<svg" ++ d.rootAttributes ++ ">"
  let symbols := Primitive.writeAll (head ++ "<defs>") d.symbols ++ "</defs>"
  Primitive.writeAll symbols (d.elements.map Element.primitive) ++ "</svg>"

end Drawing

end GanttChart
