import GanttChart.Proofs.Markup.Entities
import GanttChart.Text.Blank

/-! # A plain reader of markup

The reader takes one character after the other. It knows tags, attributes in double quotes and the
five entities, and keeps the elements that are still open on a stack. -/

namespace GanttChart.Markup

inductive Node where
  | text (content : String)
  | element (tag : String) (attributes : List (String × String)) (children : List Node)

/-! ## The reader -/

def isNameChar (c : Char) : Bool :=
  c.isAlphanum || c == ':' || c == '-' || c == '_' || c == '.'

/-- What the reader is inside of. -/
inductive Mode where
  /-- Between tags, with what stands there so far. -/
  | content (raw : List Char)
  /-- Behind the angle bracket of a tag. -/
  | opening
  /-- In an instruction to the reader, which is passed over. -/
  | instruction
  /-- In a start tag, behind its name or an attribute. -/
  | startTag (tag : List Char) (attributes : List (String × String))
  /-- In a start tag, behind a blank. -/
  | gap (tag : List Char) (attributes : List (String × String))
  | key (tag : List Char) (attributes : List (String × String)) (key : List Char)
  /-- Behind the equals sign of an attribute. -/
  | assigned (tag : List Char) (attributes : List (String × String)) (key : List Char)
  | value (tag : List Char) (attributes : List (String × String)) (key raw : List Char)
  /-- Behind the slash of a tag without an end tag. -/
  | selfClosing (tag : List Char) (attributes : List (String × String))
  | endTag (tag : List Char)

/-- An element that is open, with the nodes before it. -/
structure Frame where
  tag : List Char
  attributes : List (String × String)
  before : List Node

structure Reading where
  mode : Mode
  /-- The nodes so far in the innermost open element. -/
  nodes : List Node
  /-- The open elements, innermost first. -/
  outer : List Frame

namespace Reading

/-- The reader between two tags. -/
def between (nodes : List Node) (outer : List Frame) : Reading := ⟨.content [], nodes, outer⟩

def enter (r : Reading) (tag : List Char) (attributes : List (String × String)) : Reading :=
  between [] (⟨tag, attributes, r.nodes⟩ :: r.outer)

/-- A text node, unless there is no text. -/
def textNodes (content : String) : List Node := if content = "" then [] else [.text content]

def step (r : Reading) (c : Char) : Option Reading :=
  match r.mode with
  | .content raw =>
    if c = '<' then
      (unescape? (String.ofList raw)).map fun content =>
        { r with mode := .opening, nodes := r.nodes ++ textNodes content }
    else if r.outer.isEmpty then if Text.isBlank c then some r else none
    else some { r with mode := .content (raw ++ [c]) }
  | .opening =>
    if c = '/' then some { r with mode := .endTag [] }
    else if c = '?' then some { r with mode := .instruction }
    else if isNameChar c then some { r with mode := .startTag [c] [] }
    else none
  | .instruction => some (if c = '>' then { r with mode := .content [] } else r)
  | .startTag tag attributes =>
    if c = ' ' then some { r with mode := .gap tag attributes }
    else if c = '/' then some { r with mode := .selfClosing tag attributes }
    else if c = '>' then some (r.enter tag attributes)
    else if attributes.isEmpty && isNameChar c then
      some { r with mode := .startTag (tag ++ [c]) attributes }
    else none
  | .gap tag attributes =>
    if c = ' ' then some r
    else if c = '/' then some { r with mode := .selfClosing tag attributes }
    else if c = '>' then some (r.enter tag attributes)
    else if isNameChar c then some { r with mode := .key tag attributes [c] }
    else none
  | .key tag attributes key =>
    if c = '=' then some { r with mode := .assigned tag attributes key }
    else if isNameChar c then some { r with mode := .key tag attributes (key ++ [c]) }
    else none
  | .assigned tag attributes key =>
    if c = '"' then some { r with mode := .value tag attributes key [] } else none
  | .value tag attributes key raw =>
    if c = '"' then
      (unescape? (String.ofList raw)).map fun value =>
        { r with mode := .startTag tag (attributes ++ [(String.ofList key, value)]) }
    else if c = '<' then none
    else some { r with mode := .value tag attributes key (raw ++ [c]) }
  | .selfClosing tag attributes =>
    if c = '>' then
      some (between (r.nodes ++ [.element (String.ofList tag) attributes []]) r.outer)
    else none
  | .endTag tag =>
    if c = '>' then
      match r.outer with
      | [] => none
      | f :: rest =>
        if f.tag = tag then
          some (between (f.before ++ [.element (String.ofList tag) f.attributes r.nodes]) rest)
        else none
    else if isNameChar c then some { r with mode := .endTag (tag ++ [c]) }
    else none

end Reading

/-- The one element of a text. Only blanks and instructions may stand beside it. -/
def read? (s : String) : Option Node :=
  match s.toList.foldlM Reading.step (.between [] []) with
  | some ⟨.content _, [root], []⟩ => some root
  | _ => none

/-- An element in another one has to end before it. -/
example : read? "<a><b></a></b>" = none := rfl

end GanttChart.Markup
