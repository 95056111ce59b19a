import GanttChart.Color
import GanttChart.Day.Weekday
import GanttChart.Notation.Attribute
import GanttChart.Notation.Line
import GanttChart.Text.Lines

/-! Documents from the schedule notation, line by line. An item enters the document the first time
its attribute lines make it ready and joins the latest group of that moment; later attribute lines
go on changing it there. An item that never becomes ready is dropped. -/

namespace GanttChart.Notation

/-- The item that attribute lines belong to: one still outside the document, or the place of one
that entered it. -/
inductive Active where
  | pendingTask (t : TaskRecord)
  | pendingMilestone (m : MilestoneRecord)
  | task (place : Nat)
  | milestone (place : Nat)

structure Draft where
  document : Document
  /-- The place of the group that items join. -/
  group : Option Nat
  active : Option Active

/-- Adds a name to the members of a group that does not have it yet. -/
def join (name : String) (g : GroupRecord) : GroupRecord :=
  if g.member.contains name then g else { g with member := g.member ++ [name] }

/-- The groups after an item joined the one at a place, if there is any. -/
def enroll (groups : List GroupRecord) (place : Option Nat) (name : String) : List GroupRecord :=
  match place with
  | some i => groups.modify i (join name)
  | none => groups

/-- The text of an item line without blanks around it and quotes around that; none when nothing is
left. -/
def itemText? (s : String) : Option String :=
  let cs := Text.trimBy (fun c => c == '\x27' || c == '"') (Text.trim s.toList)
  if cs.isEmpty then none else some (String.ofList cs)

def groupTitle (line : String) : String :=
  String.ofList (Text.trimBy (fun c => c == '-' || c == '=' || c == ' ') line.toList)

/-- The entries that a closing line adds. Two dates stand for all days between them and two
weekdays for all those between them; other pairs stand for nothing. -/
def closedEntries (entry : String) : List String :=
  let entry := Text.trimmed entry
  match Text.cut? " to ".toList entry.toList with
  | none => [entry]
  | some (front, back) =>
    let front := String.ofList front
    let back := String.ofList back
    match Day.read? front, Day.read? back with
    | some first, some last => (Day.span first last).map Day.text
    | _, _ =>
      match Weekday.ofText? front, Weekday.ofText? back with
      | some first, some last => (Weekday.cycle first last).map Weekday.name
      | _, _ => []

namespace Draft

def empty : Draft := ⟨.empty, none, none⟩

def onProject (d : Draft) (f : ProjectSection → ProjectSection) : Draft :=
  { d with document := { d.document with project := f d.document.project } }

def setPeriod (d : Draft) (start finish : String) : Draft :=
  if (Day.read? start).isSome && (Day.read? finish).isSome then
    d.onProject fun p =>
      { p with start := some (Text.trimmed start), finish := some (Text.trimmed finish) }
  else d

def addClosed (d : Draft) (entry : String) : Draft :=
  d.onProject fun p => { p with closed := p.closed ++ closedEntries entry }

def setToday (d : Draft) (day : String) : Draft :=
  if (Day.read? day).isSome then d.onProject fun p => { p with today := some (Text.trimmed day) }
  else d

def setScale (d : Draft) (word : String) : Draft :=
  match Scale.ofText? word with
  | some scale => d.onProject fun p => { p with scale := some scale }
  | none => d

/-- Sets the colors of a target, when all of them are colors. -/
def setColors (d : Draft) (target : Target) (list : String) : Draft :=
  let list := Text.trimmed list
  if (Text.fieldsOf '/' list).all Color.isValid then
    let colors := d.document.colors
    let colors := match target with
      | .task => { colors with task := some list }
      | .milestone => { colors with milestone := some list }
      | .path => { colors with path := some list }
    { d with document := { d.document with colors := colors } }
  else d

def addGroup (d : Draft) (line : String) : Draft :=
  let group : GroupRecord := ⟨groupTitle line, []⟩
  { d with
    document := { d.document with groups := d.document.groups ++ [group] }
    group := some d.document.groups.length }

/-- Lets the active item enter the document if it is ready. -/
def settle (d : Draft) : Draft :=
  match d.active with
  | some (.pendingTask t) =>
    if t.isReady then
      { d with
        document :=
          { d.document with
            tasks := d.document.tasks ++ [t]
            groups := enroll d.document.groups d.group t.name }
        active := some (.task d.document.tasks.length) }
    else d
  | some (.pendingMilestone m) =>
    if m.isReady then
      { d with
        document :=
          { d.document with
            milestones := d.document.milestones ++ [m]
            groups := enroll d.document.groups d.group m.name }
        active := some (.milestone d.document.milestones.length) }
    else d
  | _ => d

/-- Applies an attribute to the active item, wherever it is; without one it is lost. -/
def applyAttribute (d : Draft) (a : Attribute) : Draft :=
  match d.active with
  | none => d
  | some (.pendingTask t) => { d with active := some (.pendingTask (t.apply a)) }
  | some (.pendingMilestone m) => { d with active := some (.pendingMilestone (m.apply a)) }
  | some (.task place) =>
    { d with document :=
        { d.document with tasks := d.document.tasks.modify place fun t => t.apply a } }
  | some (.milestone place) =>
    { d with document :=
        { d.document with milestones := d.document.milestones.modify place fun m => m.apply a } }

/-- Makes another item the active one; one that waited outside the document is dropped. -/
def begin (d : Draft) (a : Active) : Draft := { d with active := some a }

def takeLine (d : Draft) : Line → Draft
  | .comment => d
  | .period start finish => d.setPeriod start finish
  | .closed entry => d.addClosed entry
  | .today day => d.setToday day
  | .scale word => d.setScale word
  | .color target list => d.setColors target list
  | .group line => d.addGroup line
  | .task name text => d.begin (.pendingTask { TaskRecord.named name with text := itemText? text })
  | .milestone name text =>
    d.begin (.pendingMilestone { MilestoneRecord.named name with text := itemText? text })
  | .detail body =>
    match Attribute.read? body.toList with
    | some a => (d.applyAttribute a).settle
    | none => d

def feed (d : Draft) (line : String) : Draft :=
  match Line.read? line with
  | some l => d.takeLine l
  | none => d

/-- The draft after one more line, and so on for all lines. -/
def feedAll (d : Draft) (lines : List String) : Draft := lines.foldl feed d

end Draft

/-- The document that a text in the schedule notation describes. -/
def document (s : String) : Document := (Draft.empty.feedAll (Text.lines s)).document

end GanttChart.Notation
