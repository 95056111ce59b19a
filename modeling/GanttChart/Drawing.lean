/-! Drawings: positioned primitives in layers. Lower layers are drawn first; within a layer the
order of construction decides. -/

namespace GanttChart

structure Point where
  x : Float
  y : Float

structure Stroke where
  color : String
  width : Float
  dash : Option String

inductive Anchor where
  | start
  | middle
  deriving DecidableEq

inductive Baseline where
  | hanging
  | middle
  deriving DecidableEq

structure TextStyle where
  fontFamily : String
  fontSize : Float
  bold : Bool
  fill : String
  anchor : Anchor
  baseline : Baseline

structure Transform where
  translate : Point
  rotate : Float

inductive Primitive where
  | line (start finish : Point) (stroke : Stroke)
  | rect (origin : Point) (width height radius : Float) (fill : String) (stroke : Option Stroke)
  | polyline (points : List Point) (fill : Option String) (stroke : Option Stroke)
  | text (origin : Point) (content : String) (style : TextStyle)
  | group (id : Option String) (transform : Option Transform) (children : List Primitive)
  | use (href : String) (fill : Option String)

structure Element where
  layer : Int
  primitive : Primitive

structure Drawing where
  width : Float
  height : Float
  /-- Symbols that primitives refer to. -/
  symbols : List Primitive
  elements : List Element

namespace Layer

def closed : Int := 0
def grid : Int := 5
def frame : Int := 10
def body : Int := 20
def overlay : Int := 21
def path : Int := 30
def today : Int := 99
def error : Int := 100

end Layer

def Stroke.solid (color : String) (width : Float) : Stroke := ⟨color, width, none⟩

/-- Plain black text that starts at its origin and hangs below it. -/
def TextStyle.plain (fontFamily : String) (fontSize : Float) : TextStyle :=
  ⟨fontFamily, fontSize, false, "black", .start, .hanging⟩

namespace Drawing

def push (d : Drawing) (layer : Int) (p : Primitive) : Drawing :=
  { d with elements := d.elements ++ [⟨layer, p⟩] }

/-- The elements by layer, those of one layer in the order they had. -/
def sorted (d : Drawing) : Drawing :=
  { d with elements := d.elements.mergeSort fun a b => a.layer ≤ b.layer }

/-- The contents of the texts that stand in no group. -/
def texts (d : Drawing) : List String :=
  d.elements.filterMap fun e =>
    match e.primitive with
    | .text _ content _ => some content
    | _ => none

@[simp] theorem elements_push (d : Drawing) (layer : Int) (p : Primitive) :
    (d.push layer p).elements = d.elements ++ [⟨layer, p⟩] := rfl

/-- Sorting loses and adds nothing. -/
theorem elements_sorted_perm (d : Drawing) : d.sorted.elements.Perm d.elements :=
  List.mergeSort_perm _ _

/-- After sorting no element is followed by one of a lower layer. -/
theorem pairwise_sorted (d : Drawing) :
    d.sorted.elements.Pairwise fun a b => a.layer ≤ b.layer := by
  have h := @List.pairwise_mergeSort _ (fun a b : Element => decide (a.layer ≤ b.layer))
    (fun a b c hab hbc => by simp at *; omega) (fun a b => by simp; omega) d.elements
  simpa [sorted] using h

end Drawing

end GanttChart
