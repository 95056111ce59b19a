/-! Lines of a text. A line ends at a line feed, with one carriage return before it dropped as
well; a text that ends in a line feed has no further empty line. -/

namespace GanttChart.Text

/-- Drops one carriage return from the end of a line held backwards. -/
def dropReturn : List Char → List Char
  | '\r' :: cs => cs
  | cs => cs

/-- The lines of `cs` when `held` (backwards) is the part of the current line already read. -/
def linesFrom (held : List Char) : List Char → List (List Char)
  | [] => if held.isEmpty then [] else [held.reverse]
  | c :: cs =>
    if c = '\n' then (dropReturn held).reverse :: linesFrom [] cs else linesFrom (c :: held) cs

def lines (s : String) : List String := (linesFrom [] s.toList).map String.ofList

@[simp] theorem linesFrom_nil_nil : linesFrom [] [] = [] := rfl

theorem linesFrom_newline (held cs : List Char) :
    linesFrom held ('\n' :: cs) = (dropReturn held).reverse :: linesFrom [] cs := rfl

end GanttChart.Text
