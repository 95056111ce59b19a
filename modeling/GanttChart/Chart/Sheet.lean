import GanttChart.Chart.Layout
import GanttChart.Drawing

/-! The sheet a chart is drawn on: its coordinates and its settings, and the pens that follow from
them. -/

namespace GanttChart

structure Sheet where
  config : ChartConfig
  layout : Layout

namespace Sheet

def gridStroke (s : Sheet) : Stroke := .solid s.config.gridColor 1

def textStyle (s : Sheet) (size : Float) : TextStyle := .plain s.config.fontFamily size

def gridLine (s : Sheet) (start finish : Point) : Primitive := .line start finish s.gridStroke

end Sheet

/-- The style with its text centered on its origin. -/
def TextStyle.centered (s : TextStyle) : TextStyle := { s with anchor := .middle }

/-- The style with its text at half height of its origin. -/
def TextStyle.halfway (s : TextStyle) : TextStyle := { s with baseline := .middle }

def TextStyle.heavy (s : TextStyle) : TextStyle := { s with bold := true }

def TextStyle.colored (s : TextStyle) (color : String) : TextStyle := { s with fill := color }

end GanttChart
