import GanttChart.ChartConfig
import GanttChart.Drawing
import GanttChart.Text.Blank
import GanttChart.Text.Lines

/-! Error messages in drawings: red lines of text below everything else, on the top layer. -/

namespace GanttChart.Drawing

/-- No drawing with an error in it is narrower. -/
def leastWidth : Float := 640

def errorStyle : TextStyle :=
  { TextStyle.plain ChartConfig.standard.fontFamily 14 with bold := true, fill := "red" }

/-- The lines of a message; a message without any is one empty line. -/
def errorLines (message : String) : List String :=
  match Text.lines message with
  | [] => [message]
  | lines => lines

/-- A line of a message: each space in front of it moves it to the right, and no blank in front of
it is kept. -/
def errorLine (line : String) (y : Float) : Element :=
  let cs := line.toList
  let indent := Number.ofInt (cs.takeWhile (· == ' ')).length * 8
  ⟨Layer.error, .text ⟨indent, y⟩ (String.ofList (Text.trimStart cs)) errorStyle⟩

/-- The drawing grown by a message at its bottom. -/
def appendError (d : Drawing) (message : String) : Drawing :=
  let top := d.height + 4
  let lines := errorLines message
  { d with
    width := if d.width > leastWidth then d.width else leastWidth
    height := top + 16 * Number.ofInt lines.length
    elements :=
      d.elements ++ lines.zipIdx.map fun (line, i) => errorLine line (top + 16 * Number.ofInt i) }

def ofError (message : String) : Drawing := Drawing.appendError ⟨leastWidth, 0, [], []⟩ message

end GanttChart.Drawing
