import GanttChart.Proofs.Drawing.Svg

/-! # Ids in the text of a drawing

Groups are the only primitives that can have an id. The ids in the text of a drawing are those of
its groups, in the order in which the groups are written. -/

namespace GanttChart

open Markup

/-! ## Ids of markup -/

namespace Markup

/-- The values of all attributes with a key. -/
def valuesOf (key : String) (attributes : List (String × String)) : List String :=
  (attributes.filter fun a => a.1 == key).map Prod.snd

variable {key key' : String}

@[simp] theorem valuesOf_nil (key : String) : valuesOf key [] = [] := rfl

@[simp] theorem valuesOf_cons (key : String) (a : String × String)
    (attributes : List (String × String)) :
    valuesOf key (a :: attributes) =
      if a.1 = key then a.2 :: valuesOf key attributes else valuesOf key attributes := by
  by_cases h : a.1 = key <;> simp [valuesOf, h]

@[simp] theorem valuesOf_append (key : String) (attributes attributes' : List (String × String)) :
    valuesOf key (attributes ++ attributes') =
      valuesOf key attributes ++ valuesOf key attributes' := by
  simp [valuesOf]

@[simp] theorem valuesOf_present (key : String) (value : Option String) :
    valuesOf key (present key' value) = if key' = key then value.toList else [] := by
  cases value <;> simp [present]

namespace Node

mutual

/-- The values of the id attributes of a node and of all nodes inside of it, in the order of the
text. -/
def ids : Node → List String
  | text _ => []
  | element _ attributes children => valuesOf "id" attributes ++ idsOf children

def idsOf : List Node → List String
  | [] => []
  | n :: rest => n.ids ++ idsOf rest

end

theorem idsOf_eq_flatMap (ns : List Node) : idsOf ns = ns.flatMap ids := by
  induction ns with
  | nil => rfl
  | cons n rest ih => rw [idsOf, ih, List.flatMap_cons]

end Node

end Markup

/-! ## Ids of primitives -/

theorem Stroke.valuesOf_id (s : Stroke) : valuesOf "id" s.table = [] := by
  simp [table]

theorem TextStyle.valuesOf_id (s : TextStyle) : valuesOf "id" s.table = [] := by
  obtain ⟨fontFamily, fontSize, bold, fill, anchor, baseline⟩ := s
  cases bold <;> simp [table]

namespace Primitive

theorem valuesOf_strokeTable (s : Option Stroke) : valuesOf "id" (strokeTable s) = [] := by
  cases s with
  | none => rfl
  | some s => simpa [strokeTable] using s.valuesOf_id

theorem valuesOf_cornerTable (radius : Float) : valuesOf "id" (cornerTable radius) = [] := by
  unfold cornerTable
  split <;> simp

/-- The ids in the text of a primitive. -/
def ids (p : Primitive) : List String := p.node.ids

@[simp] theorem ids_line (start finish : Point) (stroke : Stroke) :
    (line start finish stroke).ids = [] := by
  simp [ids, node, Node.ids, Node.idsOf, stroke.valuesOf_id]

@[simp] theorem ids_rect (origin : Point) (width height radius : Float) (fill : String)
    (stroke : Option Stroke) : (rect origin width height radius fill stroke).ids = [] := by
  simp [ids, node, Node.ids, Node.idsOf, valuesOf_cornerTable, valuesOf_strokeTable]

@[simp] theorem ids_polyline (points : List Point) (fill : Option String)
    (stroke : Option Stroke) : (polyline points fill stroke).ids = [] := by
  simp [ids, node, Node.ids, Node.idsOf, valuesOf_strokeTable]

@[simp] theorem ids_text (origin : Point) (content : String) (style : TextStyle) :
    (text origin content style).ids = [] := by
  have hcontent : Node.idsOf (Reading.textNodes content) = [] := by
    unfold Reading.textNodes
    split <;> rfl
  simp [ids, node, Node.ids, hcontent, style.valuesOf_id]

@[simp] theorem ids_use (href : String) (fill : Option String) : (use href fill).ids = [] := by
  simp [ids, node, Node.ids, Node.idsOf]

/-- A group has its own id first, and then those of the primitives inside of it. -/
@[simp] theorem ids_group (id : Option String) (transform : Option Transform)
    (children : List Primitive) :
    (group id transform children).ids = id.toList ++ children.flatMap ids := by
  have hown : valuesOf "id" (present "id" id ++ present "transform" (transform.map Transform.text))
      = id.toList := by simp
  rw [ids, node, Node.ids, hown, Node.idsOf_eq_flatMap, nodes_eq_map, List.flatMap_map]
  rfl

end Primitive

def Element.ids (e : Element) : List String := e.primitive.ids

namespace Drawing

/-- The text of a drawing can be read, and its ids are those of the symbols and of the elements. -/
theorem exists_read?_svg (d : Drawing) : ∃ root, Markup.read? d.svg = some root ∧
    root.ids = d.symbols.flatMap Primitive.ids ++ d.elements.flatMap Element.ids := by
  refine ⟨_, read?_of_reads d.reads_svg, ?_⟩
  have hroot : valuesOf "id" d.rootTable = [] := by simp [rootTable]
  simp only [Node.ids, hroot, Node.idsOf, Node.idsOf_eq_flatMap, List.flatMap_map, valuesOf_nil,
    List.nil_append]
  rfl

end Drawing

end GanttChart
