/-! Texts inside markup. The characters that mean something to markup are written as entities. -/

namespace GanttChart.Markup

/-- What is written for each character that stands for itself nowhere. The ampersand comes first,
for what is written for the others has one. -/
def entities : List (Char × String) :=
  [('&', "&amp;"), ('<', "&lt;"), ('>', "&gt;"), ('"', "&quot;"), ('\x27', "&apos;")]

/-- Writes a text for every occurrence of a character. -/
def replace (cs : List Char) (entity : Char × String) : List Char :=
  cs.flatMap fun c => if c = entity.1 then entity.2.toList else [c]

/-- The text with its entities, put in one after the other. -/
def escape (s : String) : String := String.ofList (entities.foldl replace s.toList)

/-- An attribute inside a tag, with a value that is written as it is. -/
def attributeText (name value : String) : String := " " ++ name ++ "=\"" ++ value ++ "\""

/-- An attribute that is left out when there is no value. -/
def optionalText (name : String) : Option String → String
  | some value => attributeText name value
  | none => ""

end GanttChart.Markup
