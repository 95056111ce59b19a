import GanttChart.Text.Blank
import GanttChart.Text.Cut

/-! Lines of the schedule notation. A line is taken by the first of an ordered list of forms that
fits it, whatever becomes of it afterwards; a line that fits none means nothing. No form lets a
line feed into its open parts, except where blanks are passed over. -/

namespace GanttChart.Notation

inductive Target where
  | task
  | milestone
  | path
  deriving DecidableEq

inductive Line where
  | comment
  | period (start finish : String)
  | closed (entry : String)
  | today (day : String)
  | scale (word : String)
  | color (target : Target) (list : String)
  /-- The whole line is kept, its title being inside. -/
  | group (line : String)
  | task (name text : String)
  | milestone (name text : String)
  /-- What follows the indentation. -/
  | detail (body : String)
  deriving DecidableEq

/-- The rest of a line as an open part. -/
def open? (cs : List Char) : Option String :=
  if cs.contains '\n' then none else some (String.ofList cs)

/-- What follows one of several beginnings, the first that fits. -/
def afterAny? (leads : List String) (cs : List Char) : Option (List Char) :=
  leads.findSome? fun lead => Text.after? lead.toList cs

namespace Line

/-- A hash sign starts a comment. -/
def comment? (cs : List Char) : Option Line :=
  match cs with
  | '#' :: rest => (open? rest).map fun _ => comment
  | _ => none

/-- The project period runs up to the last word that separates its bounds. -/
def period? (cs : List Char) : Option Line := do
  let rest ← afterAny? ["project lasts ", "Project lasts "] cs
  let rest ← open? rest
  let (start, finish) ← Text.cutLast? " to ".toList rest.toList
  some (period (String.ofList start) (String.ofList finish))

def closed? (cs : List Char) : Option Line :=
  [" are closed", " is closed"].findSome? fun tail =>
    ((Text.before? tail.toList cs).bind open?).map closed

def today? (cs : List Char) : Option Line :=
  ((Text.after? "today is ".toList cs).bind open?).map today

def scale? (cs : List Char) : Option Line :=
  ((Text.after? "scale is ".toList cs).bind open?).map scale

def targets : List (String × Target) :=
  [("tasks", .task), ("task", .task), ("milestones", .milestone), ("milestone", .milestone),
   ("paths", .path), ("path", .path)]

def color? (cs : List Char) : Option Line :=
  targets.findSome? fun (word, target) => do
    let rest ← Text.after? word.toList cs
    let rest ← afterAny? [" are colored ", " is colored "] rest
    (open? rest).map (color target)

def group? (cs : List Char) : Option Line :=
  match cs with
  | '-' :: '-' :: _ => (open? cs).map group
  | '=' :: '=' :: _ => (open? cs).map group
  | _ => none

/-- What follows a colon and the blanks behind it. -/
def afterColon? (cs : List Char) : Option (List Char) :=
  match cs with
  | ':' :: rest => some (Text.trimStart rest)
  | _ => none

def isTaskName (c : Char) : Bool := c != '!' && !Text.isBlank c && c != ':'

def isMilestoneName (c : Char) : Bool := !Text.isBlank c && c != ':'

/-- A name, and a text that may stand behind a colon with blanks on both sides of it. -/
def task? (cs : List Char) : Option Line :=
  let name := cs.takeWhile isTaskName
  let rest := cs.dropWhile isTaskName
  if name.isEmpty then none
  else (open? ((afterColon? (Text.trimStart rest)).getD rest)).map (task (String.ofList name))

/-- A name behind an exclamation mark, and a text that may stand behind a colon right after it. -/
def milestone? (cs : List Char) : Option Line :=
  match cs with
  | '!' :: more =>
    let name := more.takeWhile isMilestoneName
    let rest := more.dropWhile isMilestoneName
    if name.isEmpty then none
    else (open? ((afterColon? rest).getD rest)).map (milestone (String.ofList name))
  | _ => none

/-- Two spaces and something that is no blank. -/
def detail? (cs : List Char) : Option Line :=
  match cs with
  | ' ' :: ' ' :: c :: rest => if Text.isBlank c then none else (open? (c :: rest)).map detail
  | _ => none

/-- The forms in the order in which they are tried. -/
def forms : List (List Char → Option Line) :=
  [comment?, period?, closed?, today?, scale?, color?, group?, task?, milestone?, detail?]

def read? (s : String) : Option Line :=
  let cs := s.toList
  forms.findSome? fun form => form cs

end Line

end GanttChart.Notation
