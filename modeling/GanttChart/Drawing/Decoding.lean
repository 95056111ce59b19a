import GanttChart.Drawing
import GanttChart.Value

/-! Drawings out of structured values. A record is an object, whose unknown fields are passed over,
or a list of all its parts in the order of their declaration. Whole numbers are taken for doubles,
and open parts may be null or, in an object, left out. -/

namespace GanttChart

namespace Value

def float? : Value → Option Float
  | .num n => some n.toFloat
  | _ => none

def bool? : Value → Option Bool
  | .bool b => some b
  | _ => none

/-- A whole number of 32 bits with sign. -/
def layer? : Value → Option Int
  | .num (.whole n) => if -(Number.twoTo 31 : Int) ≤ n ∧ n < Number.twoTo 31 then some n else none
  | _ => none

def listOf? {α : Type} (read : Value → Option α) : Value → Option (List α)
  | .list items => items.mapM read
  | _ => none

/-- A choice by its name, or as an object with its name over nothing. -/
def choice? {α : Type} (read : String → Option α) : Value → Option α
  | .str name => read name
  | .object [(name, .null)] => read name
  | .object [(name, .object [])] => read name
  | _ => none

/-- A record as an object. A list must have all parts that are `required`, and may have the others
behind them. -/
def record? (required others : List String) : Value → Option Value
  | .object fields => some (.object fields)
  | .list items =>
    if required.length ≤ items.length ∧ items.length ≤ required.length + others.length then
      some (.ofFields ((required ++ others).zip items))
    else none
  | _ => none

/-- A part that may be open: `none` when it is there but refused. -/
def open? {α : Type} (read : Value → Option α) (v : Value) (key : String) : Option (Option α) :=
  match v.field? key with
  | none => some none
  | some .null => some none
  | some w => (read w).map some

def part? {α : Type} (read : Value → Option α) (v : Value) (key : String) : Option α :=
  (v.field? key).bind read

end Value

open Value (float? bool? text? layer? listOf? choice? record? open? part?)

def Point.ofValue? (v : Value) : Option Point := do
  let v ← record? ["x", "y"] [] v
  let x ← part? float? v "x"
  let y ← part? float? v "y"
  some ⟨x, y⟩

def Stroke.ofValue? (v : Value) : Option Stroke := do
  let v ← record? ["color", "width"] ["dash"] v
  let color ← part? text? v "color"
  let width ← part? float? v "width"
  let dash ← open? text? v "dash"
  some ⟨color, width, dash⟩

def Anchor.ofName? : String → Option Anchor
  | "start" => some start
  | "middle" => some middle
  | _ => none

def Baseline.ofName? : String → Option Baseline
  | "hanging" => some hanging
  | "middle" => some middle
  | _ => none

def TextStyle.ofValue? (v : Value) : Option TextStyle := do
  let v ← record? ["font_family", "font_size", "bold", "fill", "anchor", "baseline"] [] v
  let fontFamily ← part? text? v "font_family"
  let fontSize ← part? float? v "font_size"
  let bold ← part? bool? v "bold"
  let fill ← part? text? v "fill"
  let anchor ← part? (choice? Anchor.ofName?) v "anchor"
  let baseline ← part? (choice? Baseline.ofName?) v "baseline"
  some ⟨fontFamily, fontSize, bold, fill, anchor, baseline⟩

def Transform.ofValue? (v : Value) : Option Transform := do
  let v ← record? ["translate", "rotate"] [] v
  let translate ← part? Point.ofValue? v "translate"
  let rotate ← part? float? v "rotate"
  some ⟨translate, rotate⟩

namespace Primitive

/-- The types of primitives and the names of their parts. -/
def forms : List (String × List String) :=
  [("line", ["from", "to", "stroke"]),
   ("rect", ["origin", "width", "height", "radius", "fill", "stroke"]),
   ("polyline", ["points", "fill", "stroke"]),
   ("text", ["origin", "content", "style"]),
   ("group", ["id", "transform", "children"]),
   ("use", ["href", "fill"])]

/-- The form of a type. In a group a type may also be told by its place among the forms. -/
def form? (grouped : Bool) : Value → Option (String × List String)
  | .str type => forms.find? fun f => f.1 == type
  | .num (.whole n) => if grouped && decide (0 ≤ n) then forms[n.toNat]? else none
  | _ => none

/-- A primitive of a type out of an object, with the children that were read for it. -/
def ofParts? (type : String) (v : Value) (children : Option (List Primitive)) :
    Option Primitive := do
  match type with
  | "line" =>
    let start ← part? Point.ofValue? v "from"
    let finish ← part? Point.ofValue? v "to"
    let stroke ← part? Stroke.ofValue? v "stroke"
    some (line start finish stroke)
  | "rect" =>
    let origin ← part? Point.ofValue? v "origin"
    let width ← part? float? v "width"
    let height ← part? float? v "height"
    let radius ← part? float? v "radius"
    let fill ← part? text? v "fill"
    let stroke ← open? Stroke.ofValue? v "stroke"
    some (rect origin width height radius fill stroke)
  | "polyline" =>
    let points ← part? (listOf? Point.ofValue?) v "points"
    let fill ← open? text? v "fill"
    let stroke ← open? Stroke.ofValue? v "stroke"
    some (polyline points fill stroke)
  | "text" =>
    let origin ← part? Point.ofValue? v "origin"
    let content ← part? text? v "content"
    let style ← part? TextStyle.ofValue? v "style"
    some (text origin content style)
  | "group" =>
    let id ← open? text? v "id"
    let transform ← open? Transform.ofValue? v "transform"
    let children ← children
    some (group id transform children)
  | "use" =>
    let href ← part? text? v "href"
    let fill ← open? text? v "fill"
    some (use href fill)
  | _ => none

mutual

/-- A primitive out of an object with its type among the fields, or out of a list with its type in
front of its parts. -/
def ofValue? (grouped : Bool) : Value → Option Primitive
  | .object fields => do
    let (type, _) ← part? (form? grouped) (.object fields) "type"
    ofParts? type (.object fields) (childrenUnder? fields)
  | .list (t :: parts) => do
    let (type, names) ← form? grouped t
    ofParts? type (← record? names [] (.list parts)) (childrenAt? 2 parts)
  | _ => none

/-- The primitives in the list under the key of children. -/
def childrenUnder? : List (String × Value) → Option (List Primitive)
  | [] => none
  | (key, .list items) :: rest => if key = "children" then ofValues? items else childrenUnder? rest
  | _ :: rest => childrenUnder? rest

def childrenAt? : Nat → List Value → Option (List Primitive)
  | 0, .list items :: _ => ofValues? items
  | n + 1, _ :: rest => childrenAt? n rest
  | _, _ => none

def ofValues? : List Value → Option (List Primitive)
  | [] => some []
  | v :: rest =>
    match ofValue? true v, ofValues? rest with
    | some p, some ps => some (p :: ps)
    | _, _ => none

end

end Primitive

def Element.ofValue? (v : Value) : Option Element := do
  let v ← record? ["z", "primitive"] [] v
  let layer ← part? layer? v "z"
  let primitive ← part? (Primitive.ofValue? false) v "primitive"
  some ⟨layer, primitive⟩

def Drawing.ofValue? (v : Value) : Option Drawing := do
  let v ← record? ["width", "height", "defs", "elements"] [] v
  let width ← part? float? v "width"
  let height ← part? float? v "height"
  let symbols ← part? (listOf? (Primitive.ofValue? false)) v "defs"
  let elements ← part? (listOf? Element.ofValue?) v "elements"
  some ⟨width, height, symbols, elements⟩

end GanttChart
