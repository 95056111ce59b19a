import GanttChart.Drawing.Svg
import GanttChart.Proofs.Drawing.Numbers
import GanttChart.Proofs.Markup.Reading

/-! # Drawings read back

Reading the text of a drawing gives its tree: one node for each primitive, with groups around just
their children, and every text as it was before it was escaped. -/

namespace GanttChart

open Markup Markup.Reading
open Number (plainText isPlain_plainText)

/-! ## The tree of a drawing -/

/-- An attribute that is left out when there is nothing to say. -/
def Markup.present (key : String) (value : Option String) : List (String × String) :=
  (value.map fun v => (key, v)).toList

def Stroke.table (s : Stroke) : List (String × String) :=
  [("stroke", s.color), ("stroke-width", plainText s.width)] ++ present "stroke-dasharray" s.dash

def TextStyle.table (s : TextStyle) : List (String × String) :=
  [("font-family", s.fontFamily), ("font-size", plainText s.fontSize)]
    ++ (if s.bold then [("font-weight", "bold")] else [])
    ++ [("fill", s.fill), ("dominant-baseline", s.baseline.text)]
    ++ present "text-anchor" s.anchor.text?

namespace Primitive

def strokeTable (s : Option Stroke) : List (String × String) := s.toList.flatMap Stroke.table

def cornerTable (radius : Float) : List (String × String) :=
  if radius > 0 then [("rx", plainText radius), ("ry", plainText radius)] else []

mutual

/-- The node that a primitive is drawn as. -/
def node : Primitive → Node
  | line start finish stroke =>
    .element "line"
      ([("x1", plainText start.x), ("y1", plainText start.y), ("x2", plainText finish.x),
        ("y2", plainText finish.y)] ++ stroke.table) []
  | rect origin width height radius fill stroke =>
    .element "rect"
      ([("x", plainText origin.x), ("y", plainText origin.y), ("width", plainText width),
        ("height", plainText height)] ++ cornerTable radius ++ [("fill", fill)]
        ++ strokeTable stroke) []
  | polyline points fill stroke =>
    .element "polyline"
      ([("points", pointsText points)] ++ present "fill" fill ++ strokeTable stroke) []
  | text origin content style =>
    .element "text" ([("x", plainText origin.x), ("y", plainText origin.y)] ++ style.table)
      (textNodes content)
  | group id transform children =>
    .element "g" (present "id" id ++ present "transform" (transform.map Transform.text))
      (nodes children)
  | use href fill => .element "use" ([("xlink:href", href)] ++ present "fill" fill) []

def nodes : List Primitive → List Node
  | [] => []
  | p :: rest => p.node :: nodes rest

end

end Primitive

namespace Drawing

def rootTable (d : Drawing) : List (String × String) :=
  [("xmlns", "http://www.w3.org/2000/svg"), ("xmlns:xlink", "http://www.w3.org/1999/xlink"),
   ("version", "1.1"), ("width", plainText d.width ++ "px"), ("height", plainText d.height ++ "px")]

end Drawing

/-! ## Attributes -/

theorem standsFor_plainText (x : Float) : StandsFor (plainText x) (plainText x) :=
  standsFor_of_isPlain (isPlain_plainText x)

theorem adds_number (key : String) (hk : isName key = true) (x : Float) :
    Adds (attributeText key (plainText x)) [(key, plainText x)] :=
  adds_attribute hk (standsFor_plainText x)

theorem adds_text (key : String) (hk : isName key = true) (s : String) :
    Adds (attributeText key (escape s)) [(key, s)] :=
  adds_attribute hk (standsFor_escape s)

theorem adds_plain (key value : String) (hk : isName key = true) (hv : isPlain value = true) :
    Adds (attributeText key value) [(key, value)] :=
  adds_attribute hk (standsFor_of_isPlain hv)

theorem adds_optional (key : String) (hk : isName key = true) {value content : Option String}
    (h : Option.Rel StandsFor value content) :
    Adds (optionalText key value) (present key content) := by
  cases h with
  | none => exact adds_nothing
  | some hv => exact adds_attribute hk hv

theorem adds_optional_text (key : String) (hk : isName key = true) (value : Option String) :
    Adds (optionalText key (value.map escape)) (present key value) := by
  refine adds_optional key hk ?_
  cases value with
  | none => exact .none
  | some s => exact .some (standsFor_escape s)

theorem Stroke.adds (s : Stroke) : Adds s.attributes s.table :=
  ((adds_text "stroke" rfl _).append (adds_number "stroke-width" rfl _)).append
    (adds_optional_text "stroke-dasharray" rfl _)

theorem Baseline.isPlain_text (b : Baseline) : isPlain b.text = true := by
  cases b <;> rfl

theorem TextStyle.adds (s : TextStyle) : Adds s.attributes s.table := by
  obtain ⟨fontFamily, fontSize, bold, fill, anchor, baseline⟩ := s
  have hfont : Adds (attributeText "font-family" (escape fontFamily)
        ++ attributeText "font-size" (plainText fontSize))
      [("font-family", fontFamily), ("font-size", plainText fontSize)] :=
    (adds_text "font-family" rfl _).append (adds_number "font-size" rfl _)
  have hbold : Adds (if bold then attributeText "font-weight" "bold" else "")
      (if bold then [("font-weight", "bold")] else []) := by
    cases bold
    · exact adds_nothing
    · exact adds_plain "font-weight" "bold" rfl rfl
  have hanchor : Adds (optionalText "text-anchor" anchor.text?)
      (present "text-anchor" anchor.text?) := by
    refine adds_optional "text-anchor" rfl ?_
    cases anchor
    · exact .none
    · exact .some (standsFor_of_isPlain rfl)
  have hfill : Adds (attributeText "fill" (escape fill)
        ++ attributeText "dominant-baseline" baseline.text)
      [("fill", fill), ("dominant-baseline", baseline.text)] :=
    (adds_text "fill" rfl _).append (adds_plain "dominant-baseline" _ rfl baseline.isPlain_text)
  have hall := ((hfont.append hbold).append hfill).append hanchor
  rw [← String.append_assoc] at hall
  exact hall

theorem Transform.isPlain_text (t : Transform) : isPlain t.text = true := by
  have hshift : isPlain "translate(" = true := rfl
  have hcomma : isPlain ", " = true := rfl
  have hend : isPlain ")" = true := rfl
  have hturn : isPlain " rotate(" = true := rfl
  simp only [Transform.text]
  split
  · simp only [isPlain_append, isPlain_plainText, hshift, hcomma, hend, Bool.and_self]
  · simp only [isPlain_append, isPlain_plainText, hshift, hcomma, hend, hturn, Bool.and_self]

namespace Primitive

theorem isPlain_pointsText (points : List Point) : isPlain (pointsText points) = true := by
  refine isPlain_intercalate rfl fun s hs => ?_
  obtain ⟨p, _, rfl⟩ := List.mem_map.mp hs
  have hcomma : isPlain "," = true := rfl
  simp only [isPlain_append, isPlain_plainText, hcomma, Bool.and_self]

theorem adds_stroke (s : Option Stroke) : Adds (strokeAttributes s) (strokeTable s) := by
  cases s with
  | none => exact adds_nothing
  | some s => simpa [strokeAttributes, strokeTable] using s.adds

theorem adds_fill (fill : Option String) : Adds (fillAttribute fill) (present "fill" fill) :=
  adds_optional_text "fill" rfl fill

theorem adds_corners (radius : Float) : Adds (cornerAttributes radius) (cornerTable radius) := by
  unfold cornerAttributes cornerTable
  split
  · exact (adds_number "rx" rfl _).append (adds_number "ry" rfl _)
  · exact adds_nothing

theorem adds_group (id : Option String) (transform : Option Transform) :
    Adds (groupAttributes id transform)
      (present "id" id ++ present "transform" (transform.map Transform.text)) := by
  refine (adds_optional_text "id" rfl id).append (adds_optional "transform" rfl ?_)
  cases transform with
  | none => exact .none
  | some t => exact .some (standsFor_of_isPlain t.isPlain_text)

/-! ## Primitives -/

mutual

/-- Writing goes on behind what is there and does not depend on it. -/
theorem write_eq (out : String) : ∀ p : Primitive, p.write out = out ++ p.write ""
  | line .. | rect .. | polyline .. | text .. | use .. => by simp [write]
  | group id transform children => by
    rw [write, write, writeAll_eq, writeAll_eq ("" ++ _), String.empty_append]
    simp only [String.append_assoc]

theorem writeAll_eq (out : String) : ∀ ps : List Primitive, writeAll out ps = out ++ writeAll "" ps
  | [] => by simp [writeAll]
  | p :: rest => by
    rw [writeAll, writeAll, writeAll_eq, write_eq out p, writeAll_eq (write "" p),
      String.append_assoc]

end

mutual

theorem yields_write : ∀ p : Primitive, Yields (p.write "") [p.node]
  | line start finish stroke => by
    rw [write, String.empty_append, node]
    have hopens : Opens ("<" ++ "line") "line" [] := opens_tag rfl
    have hstart := (hopens.adds (adds_number "x1" rfl start.x)).adds (adds_number "y1" rfl start.y)
    have hfinish := (hstart.adds (adds_number "x2" rfl finish.x)).adds
      (adds_number "y2" rfl finish.y)
    exact (hfinish.adds stroke.adds).closed
  | rect origin width height radius fill stroke => by
    rw [write, String.empty_append, node]
    have hopens : Opens ("<" ++ "rect") "rect" [] := opens_tag rfl
    have horigin := (hopens.adds (adds_number "x" rfl origin.x)).adds (adds_number "y" rfl origin.y)
    have hsize := (horigin.adds (adds_number "width" rfl width)).adds
      (adds_number "height" rfl height)
    have hfill := (hsize.adds (adds_corners radius)).adds (adds_text "fill" rfl fill)
    exact (hfill.adds (adds_stroke stroke)).closed
  | polyline points fill stroke => by
    rw [write, String.empty_append, node]
    have hopens : Opens ("<" ++ "polyline") "polyline" [] := opens_tag rfl
    have hpoints := hopens.adds (adds_plain "points" _ rfl (isPlain_pointsText points))
    exact ((hpoints.adds (adds_fill fill)).adds (adds_stroke stroke)).closed
  | text origin content style => by
    rw [write, String.empty_append, node]
    have hopens : Opens ("<" ++ "text") "text" [] := opens_tag rfl
    have horigin := (hopens.adds (adds_number "x" rfl origin.x)).adds (adds_number "y" rfl origin.y)
    exact (horigin.adds style.adds).filled rfl (fills_of_standsFor (standsFor_escape content))
  | group id transform children => by
    rw [write, writeAll_eq, String.empty_append, node]
    have hopens : Opens ("<" ++ "g") "g" [] := opens_tag rfl
    exact (hopens.adds (adds_group id transform)).filled rfl (yields_writeAll children).fills
  | use href fill => by
    rw [write, String.empty_append, node]
    have hopens : Opens ("<" ++ "use") "use" [] := opens_tag rfl
    exact ((hopens.adds (adds_text "xlink:href" rfl href)).adds (adds_fill fill)).closed

theorem yields_writeAll : ∀ ps : List Primitive, Yields (writeAll "" ps) (nodes ps)
  | [] => yields_nothing
  | p :: rest => by
    rw [writeAll, writeAll_eq, nodes]
    exact (yields_write p).append (yields_writeAll rest)

end

theorem nodes_eq_map (ps : List Primitive) : nodes ps = ps.map node := by
  induction ps with
  | nil => rfl
  | cons p rest ih => rw [nodes, ih, List.map_cons]

end Primitive

namespace Drawing

theorem reads_declaration : (between [] []).Reads declaration (between [] []) := by
  rfl

theorem adds_length (key : String) (hk : isName key = true) (x : Float) :
    Adds (attributeText key (plainText x ++ "px")) [(key, plainText x ++ "px")] := by
  have hunit : isPlain "px" = true := rfl
  exact adds_plain key _ hk (by rw [isPlain_append, isPlain_plainText, hunit]; rfl)

theorem adds_root (d : Drawing) : Adds d.rootAttributes d.rootTable :=
  ((((adds_plain "xmlns" _ rfl rfl).append (adds_plain "xmlns:xlink" _ rfl rfl)).append
    (adds_plain "version" _ rfl rfl)).append (adds_length "width" rfl d.width)).append
    (adds_length "height" rfl d.height)

theorem yields_defs {s : String} {children : List Node} (h : Yields s children) :
    Yields ("<defs>" ++ s ++ "</defs>") [.element "defs" [] children] := by
  have hopens : Opens ("<" ++ "defs") "defs" [] := opens_tag rfl
  exact hopens.filled rfl h.fills

theorem yields_root (d : Drawing) {s : String} {children : List Node} (h : Yields s children) :
    Yields ("<svg" ++ d.rootAttributes ++ ">" ++ s ++ "</svg>")
      [.element "svg" d.rootTable children] := by
  have hopens : Opens ("<" ++ "svg") "svg" [] := opens_tag rfl
  exact (hopens.adds d.adds_root).filled rfl h.fills

theorem svg_eq (d : Drawing) : d.svg = declaration ++ ("<svg" ++ d.rootAttributes ++ ">"
    ++ ("<defs>" ++ Primitive.writeAll "" d.symbols ++ "</defs>"
      ++ Primitive.writeAll "" (d.elements.map Element.primitive)) ++ "</svg>") := by
  rw [svg, Primitive.writeAll_eq, Primitive.writeAll_eq (_ ++ "<defs>")]
  simp only [String.append_assoc]

theorem reads_svg (d : Drawing) : (between [] []).Reads d.svg (between [.element "svg" d.rootTable
    (.element "defs" [] (d.symbols.map Primitive.node)
      :: d.elements.map fun e => e.primitive.node)] []) := by
  have hdefs := yields_defs (Primitive.yields_writeAll d.symbols)
  have hinner := hdefs.append (Primitive.yields_writeAll (d.elements.map Element.primitive))
  have hroot := d.yields_root hinner [] []
  rw [Primitive.nodes_eq_map, Primitive.nodes_eq_map, List.map_map] at hroot
  rw [svg_eq]
  exact reads_declaration.append hroot

/-- The text of a drawing is read as one root element: first the symbols, each as one node, and then
the elements, each as one node and in their order. No text in a drawing can end a tag or an
attribute or begin an element, for all of them are read as they were. -/
theorem svg_reads_back (d : Drawing) : Markup.read? d.svg = some (.element "svg" d.rootTable
    (.element "defs" [] (d.symbols.map Primitive.node)
      :: d.elements.map fun e => e.primitive.node)) :=
  read?_of_reads d.reads_svg

end Drawing

end GanttChart
