import GanttChart.Number.Hexadecimal
import GanttChart.Text.Blank
import GanttChart.Text.Cut
import GanttChart.Value

/-! Colors as drawings name them, and the five colors of an item in a chart. -/

namespace GanttChart

namespace Color

/-- The color keywords of SVG 1.1. -/
def keywords : List String :=
  ["aliceblue", "antiquewhite", "aqua", "aquamarine", "azure", "beige", "bisque", "black",
   "blanchedalmond", "blue", "blueviolet", "brown", "burlywood", "cadetblue", "chartreuse",
   "chocolate", "coral", "cornflowerblue", "cornsilk", "crimson", "cyan", "darkblue", "darkcyan",
   "darkgoldenrod", "darkgray", "darkgreen", "darkgrey", "darkkhaki", "darkmagenta",
   "darkolivegreen", "darkorange", "darkorchid", "darkred", "darksalmon", "darkseagreen",
   "darkslateblue", "darkslategray", "darkslategrey", "darkturquoise", "darkviolet", "deeppink",
   "deepskyblue", "dimgray", "dimgrey", "dodgerblue", "firebrick", "floralwhite", "forestgreen",
   "fuchsia", "gainsboro", "ghostwhite", "gold", "goldenrod", "gray", "green", "greenyellow",
   "grey", "honeydew", "hotpink", "indianred", "indigo", "ivory", "khaki", "lavender",
   "lavenderblush", "lawngreen", "lemonchiffon", "lightblue", "lightcoral", "lightcyan",
   "lightgoldenrodyellow", "lightgray", "lightgreen", "lightgrey", "lightpink", "lightsalmon",
   "lightseagreen", "lightskyblue", "lightslategray", "lightslategrey", "lightsteelblue",
   "lightyellow", "lime", "limegreen", "linen", "magenta", "maroon", "mediumaquamarine",
   "mediumblue", "mediumorchid", "mediumpurple", "mediumseagreen", "mediumslateblue",
   "mediumspringgreen", "mediumturquoise", "mediumvioletred", "midnightblue", "mintcream",
   "mistyrose", "moccasin", "navajowhite", "navy", "oldlace", "olive", "olivedrab", "orange",
   "orangered", "orchid", "palegoldenrod", "palegreen", "paleturquoise", "palevioletred",
   "papayawhip", "peachpuff", "peru", "pink", "plum", "powderblue", "purple", "red", "rosybrown",
   "royalblue", "saddlebrown", "salmon", "sandybrown", "seagreen", "seashell", "sienna", "silver",
   "skyblue", "slateblue", "slategray", "slategrey", "snow", "springgreen", "steelblue", "tan",
   "teal", "thistle", "tomato", "turquoise", "violet", "wheat", "white", "whitesmoke", "yellow",
   "yellowgreen"]

/-- Whether a text is a color: a hash sign and six hexadecimal digits, or a keyword in small
letters. -/
def isValid (s : String) : Bool :=
  match s.toList with
  | '#' :: digits => digits.length == 6 && digits.all fun c => (Number.hexDigit? c).isSome
  | _ => keywords.contains s

end Color

structure ColorSet where
  planFill : String
  planOutline : String
  actualFill : String
  actualOutline : String
  text : String
  deriving DecidableEq

namespace ColorSet

def standard : ColorSet := ⟨"yellowgreen", "green", "blueviolet", "darkviolet", "black"⟩

/-- The color at a place of an override list, or the one it would replace when the list has no
such place or nothing but blanks there. -/
def pick (overrides : List String) (place : Nat) (color : String) : String :=
  match overrides[place]? with
  | some s => if Text.isBlankText s then color else Text.trimmed s
  | none => color

/-- The colors after an override list, whose places are separated by slashes and stand for plan
fill, plan outline, text, actual fill and actual outline. -/
def override (colors : ColorSet) (list : String) : ColorSet :=
  let overrides := Text.fieldsOf '/' list
  { planFill := pick overrides 0 colors.planFill
    planOutline := pick overrides 1 colors.planOutline
    text := pick overrides 2 colors.text
    actualFill := pick overrides 3 colors.actualFill
    actualOutline := pick overrides 4 colors.actualOutline }

def toValue (colors : ColorSet) : Value :=
  .ofFields [("plan_fill", .str colors.planFill), ("plan_outline", .str colors.planOutline),
    ("actual_fill", .str colors.actualFill), ("actual_outline", .str colors.actualOutline),
    ("text", .str colors.text)]

end ColorSet

end GanttChart
