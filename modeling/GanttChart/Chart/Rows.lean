import GanttChart.Chart.Sheet
import GanttChart.Number.Decimal

/-! The rows of a chart: headers of labeled groups, bars of tasks and diamonds of milestones. -/

namespace GanttChart.Sheet

/-- How many half-width cells a text takes; whatever is not ASCII takes two. -/
def cellWidth (s : String) : Nat :=
  s.toList.length + s.toList.countP fun c => 0x80 ≤ c.toNat

/-- Two rules to the left and to the right of the label, and the label. -/
def headerMarks (s : Sheet) (g : Group) (y : Float) : List Element :=
  let h := s.layout.rowHeight
  let center := s.layout.width / 2
  let half := (Number.ofInt (cellWidth g.text) * 8 + 10) / 2
  let rule (left right offset : Float) : Element :=
    ⟨Layer.body, .line ⟨left, y + offset⟩ ⟨right, y + offset⟩ (.solid "black" 1)⟩
  let rules (offset : Float) : List Element :=
    [rule 0 (center - half) offset, rule (center + half) s.layout.width offset]
  rules (h / 3) ++ rules (h * 2 / 3)
    ++ [⟨Layer.body, .text ⟨center, y + h / 2⟩ g.text (s.textStyle 13).centered.halfway⟩]

def planMarks (s : Sheet) (t : Task) (y : Float) : List Element :=
  let left := s.layout.x t.planStart
  let right := s.layout.x t.planEnd + s.layout.columnWidth
  [⟨Layer.body,
    .rect ⟨left, y⟩ (right - left) s.layout.rowHeight 6 t.colors.planFill
      (some (.solid t.colors.planOutline 1))⟩,
   ⟨Layer.overlay, .text ⟨left + 2, y + 2⟩ t.label ((s.textStyle 13).colored t.colors.text)⟩]

/-- The bar of what has actually happened, with the progress behind it. A bar that is only
projected is a dashed outline, filled up to the day it has been observed. -/
def actualMarks (s : Sheet) (t : Task) (start finish : Day) (y : Float) : List Element :=
  let left := s.layout.x start
  let right := s.layout.x finish + s.layout.columnWidth
  let top := y + s.layout.rowHeight + 2
  let outline := Stroke.solid t.colors.actualOutline 1
  let bar (width : Float) (fill : String) (stroke : Stroke) : Primitive :=
    .rect ⟨left, top⟩ width 4 2 fill (some stroke)
  let whole :=
    match t.actualCompleted with
    | some _ => bar (right - left) "#FFFFFF" { outline with dash := some "4 3" }
    | none => bar (right - left) t.colors.actualFill outline
  let percentage :=
    match t.actualProgress with
    | some p =>
      [⟨Layer.overlay,
        .text ⟨right + 2, y + s.layout.rowHeight + 5⟩ (Number.wholeText (p * 100) ++ "%")
          (s.textStyle 10).heavy.halfway⟩]
    | none => []
  let observed :=
    match t.actualCompleted with
    | some d =>
      let width := s.layout.x d - left
      if width > 0 then [⟨Layer.overlay, bar width t.colors.actualFill outline⟩] else []
    | none => []
  ⟨Layer.body, whole⟩ :: (percentage ++ observed)

/-- The marks of a task; without both ends there is no actual bar. -/
def taskMarks (s : Sheet) (t : Task) (y : Float) : List Element :=
  s.planMarks t y
    ++ match t.actualStart, t.actualEnd with
       | some start, some finish => s.actualMarks t start finish y
       | _, _ => []

/-- The outline of a diamond, closed at its top. -/
def diamond (x y radius : Float) : List Point :=
  [⟨x, y - radius⟩, ⟨x - radius, y⟩, ⟨x, y + radius⟩, ⟨x + radius, y⟩, ⟨x, y - radius⟩]

/-- A diamond on the planned day with its text, and a smaller one on the actual day. -/
def milestoneMarks (s : Sheet) (m : Milestone) (y : Float) : List Element :=
  let h := s.layout.rowHeight
  let center (d : Day) : Float := s.layout.x d + s.layout.columnWidth / 2
  let shape (d : Day) (radius : Float) (fill outline : String) : Primitive :=
    .polyline (diamond (center d) (y + h / 2) radius) (some fill) (some (.solid outline 1))
  [⟨Layer.body, shape m.planDay (h / 2) m.colors.planFill m.colors.planOutline⟩,
   ⟨Layer.overlay,
    .text ⟨center m.planDay + h / 2 + 2, y + 2⟩ m.text ((s.textStyle 13).colored m.colors.text)⟩]
    ++ (m.actualDay.map fun d =>
          (⟨Layer.overlay, shape d (h / 4) m.colors.actualFill m.colors.actualOutline⟩
            : Element)).toList

def rowMarks (s : Sheet) (y : Float) : Row → List Element
  | .header g => s.headerMarks g y
  | .item (.task t) => s.taskMarks t y
  | .item (.milestone m) => s.milestoneMarks m y

end GanttChart.Sheet
