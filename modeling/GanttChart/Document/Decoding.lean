import GanttChart.Document.Basic
import GanttChart.ShapeError

/-! Documents out of structured values. A record is an object, whose unknown fields are passed
over, or a list of its fields in the order of their declaration, of which trailing ones may be
left out unless they are required. Of several faults the first one met counts: the fields of an
object are met in the order of their keys, and a required field is missed only after that. -/

namespace GanttChart

inductive Fields where
  | named (fields : List (String × Value))
  | listed (items : List Value)

namespace Fields

/-- The value of a field, by its name or by its place. -/
def value? (fields : Fields) (name : String) (place : Nat) : Option Value :=
  match fields with
  | named fs => (fs.find? fun f => f.1 == name).map (·.2)
  | listed items => items[place]?

/-- A field that counts as absent when it is null. -/
def optional {α : Type} (fields : Fields) (name : String) (place : Nat)
    (read : Value → Except ShapeError α) : Except ShapeError (Option α) :=
  match fields.value? name place with
  | none => .ok none
  | some .null => .ok none
  | some v => (read v).map some

/-- A field that may be absent but not null. -/
def given {α : Type} (fields : Fields) (name : String) (place : Nat)
    (read : Value → Except ShapeError α) : Except ShapeError (Option α) :=
  match fields.value? name place with
  | none => .ok none
  | some v => (read v).map some

def fault? {α : Type} : Except ShapeError α → Option ShapeError
  | .ok _ => none
  | .error e => some e

/-- The first fault among named ones, in the order in which the fields are met. -/
def firstFault? (fields : Fields) (faults : List (String × Option ShapeError)) :
    Option ShapeError :=
  match fields with
  | named fs => fs.findSome? fun f => (faults.find? fun e => e.1 == f.1).bind (·.2)
  | listed _ => faults.findSome? (·.2)

/-- Fails with the first fault, or when a list has more items than the record has fields. -/
def check (fields : Fields) (faults : List (String × Option ShapeError)) : Except ShapeError Unit :=
  match fields.firstFault? faults with
  | some e => .error e
  | none =>
    match fields with
    | named _ => .ok ()
    | listed items =>
      if items.length ≤ faults.length then .ok ()
      else .error (.wrongLength items.length "fewer elements in array")

/-- A field that must be there, the first one of a record of the given type and size. -/
def required {α : Type} (fields : Fields) (name type : String) (size : Nat) :
    Option α → Except ShapeError α
  | some a => .ok a
  | none =>
    match fields with
    | named _ => .error (.missingField name)
    | listed _ =>
      .error (.wrongLength 0 ("struct " ++ type ++ " with " ++ toString size ++ " elements"))

/-- The fields of a value that stands for a record of the given type. -/
def ofValue (type : String) : Value → Except ShapeError Fields
  | .object fs => .ok (named fs)
  | .list items => .ok (listed items)
  | v => .error (.wrongKind v ("struct " ++ type))

end Fields

def readText : Value → Except ShapeError String
  | .str s => .ok s
  | v => .error (.wrongKind v "a string")

def readList {α : Type} (read : Value → Except ShapeError α) : Value → Except ShapeError (List α)
  | .list items => items.mapM read
  | v => .error (.wrongKind v "a sequence")

def Scale.ofVariant (name : String) : Except ShapeError Scale :=
  if name = "daily" then .ok .daily
  else if name = "weekly" then .ok .weekly
  else .error (.unknownVariant name ["daily", "weekly"])

/-- A scale by its name, or as an object with its name over null. -/
def Scale.ofValue : Value → Except ShapeError Scale
  | .str s => Scale.ofVariant s
  | .object [(name, v)] => do
    let scale ← Scale.ofVariant name
    match v with
    | .null => .ok scale
    | v => .error (.wrongKind v "unit")
  | .object _ => .error .notSingleKey
  | v => .error (.wrongKind v "string or map")

/-- Any number, or a text; the fault is not looked at. -/
def Scalar.ofValue : Value → Except ShapeError Scalar
  | .num n => .ok (.number n.toFloat)
  | .str s => .ok (.text s)
  | _ => .error (.noForm "Scalar")

def PlanRange.ofFields (fields : Fields) : Except ShapeError PlanRange := do
  let start := fields.optional "start" 0 readText
  let finish := fields.optional "end" 1 readText
  let period := fields.optional "period" 2 Scalar.ofValue
  fields.check [("start", Fields.fault? start), ("end", Fields.fault? finish),
    ("period", Fields.fault? period)]
  return ⟨← start, ← finish, ← period⟩

/-- A text is a point, anything else has to be a range; the fault of a range is not told. -/
def PlanSpec.ofValue : Value → Except ShapeError PlanSpec
  | .str s => .ok (.point s)
  | v =>
    match (Fields.ofValue "PlanRange" v).bind PlanRange.ofFields with
    | .ok r => .ok (.range r)
    | .error _ => .error (.noForm "PlanSpec")

def ActualRange.ofFields (fields : Fields) : Except ShapeError ActualRange := do
  let start := fields.optional "start" 0 readText
  let finish := fields.optional "end" 1 readText
  let completed := fields.optional "completed" 2 readText
  let period := fields.optional "period" 3 Scalar.ofValue
  let progress := fields.optional "progress" 4 Scalar.ofValue
  fields.check [("start", Fields.fault? start), ("end", Fields.fault? finish),
    ("completed", Fields.fault? completed), ("period", Fields.fault? period),
    ("progress", Fields.fault? progress)]
  return ⟨← start, ← finish, ← completed, ← period, ← progress⟩

def ActualSpec.ofValue : Value → Except ShapeError ActualSpec
  | .str s => .ok (.point s)
  | v =>
    match (Fields.ofValue "ActualRange" v).bind ActualRange.ofFields with
    | .ok r => .ok (.range r)
    | .error _ => .error (.noForm "ActualSpec")

def TaskRecord.ofValue (v : Value) : Except ShapeError TaskRecord := do
  let fields ← Fields.ofValue "TaskRecord" v
  let name := fields.given "name" 0 readText
  let text := fields.optional "text" 1 readText
  let plan := fields.optional "plan" 2 PlanSpec.ofValue
  let actual := fields.optional "actual" 3 ActualSpec.ofValue
  let assignee := fields.optional "assignee" 4 readText
  fields.check [("name", Fields.fault? name), ("text", Fields.fault? text),
    ("plan", Fields.fault? plan), ("actual", Fields.fault? actual),
    ("assignee", Fields.fault? assignee)]
  let name ← fields.required "name" "TaskRecord" 5 (← name)
  return ⟨name, ← text, ← plan, ← actual, ← assignee⟩

def MilestoneRecord.ofValue (v : Value) : Except ShapeError MilestoneRecord := do
  let fields ← Fields.ofValue "MilestoneRecord" v
  let name := fields.given "name" 0 readText
  let text := fields.optional "text" 1 readText
  let plan := fields.optional "plan" 2 PlanSpec.ofValue
  let actual := fields.optional "actual" 3 ActualSpec.ofValue
  fields.check [("name", Fields.fault? name), ("text", Fields.fault? text),
    ("plan", Fields.fault? plan), ("actual", Fields.fault? actual)]
  let name ← fields.required "name" "MilestoneRecord" 4 (← name)
  return ⟨name, ← text, ← plan, ← actual⟩

def GroupRecord.ofValue (v : Value) : Except ShapeError GroupRecord := do
  let fields ← Fields.ofValue "GroupRecord" v
  let text := fields.given "text" 0 readText
  let member := fields.given "member" 1 (readList readText)
  fields.check [("text", Fields.fault? text), ("member", Fields.fault? member)]
  let text ← fields.required "text" "GroupRecord" 2 (← text)
  return ⟨text, (← member).getD []⟩

def ProjectSection.ofValue (v : Value) : Except ShapeError ProjectSection := do
  let fields ← Fields.ofValue "ProjectSection" v
  let start := fields.optional "start" 0 readText
  let finish := fields.optional "end" 1 readText
  let today := fields.optional "today" 2 readText
  let closed := fields.given "closed" 3 (readList readText)
  let scale := fields.optional "scale" 4 Scale.ofValue
  fields.check [("start", Fields.fault? start), ("end", Fields.fault? finish),
    ("today", Fields.fault? today), ("closed", Fields.fault? closed),
    ("scale", Fields.fault? scale)]
  return ⟨← start, ← finish, ← today, (← closed).getD [], ← scale⟩

def ColorStyle.ofValue (v : Value) : Except ShapeError ColorStyle := do
  let fields ← Fields.ofValue "ColorStyle" v
  let task := fields.optional "task" 0 readText
  let milestone := fields.optional "milestone" 1 readText
  let path := fields.optional "path" 2 readText
  fields.check [("task", Fields.fault? task), ("milestone", Fields.fault? milestone),
    ("path", Fields.fault? path)]
  return ⟨← task, ← milestone, ← path⟩

/-- The style section, whose one field holds the colors. -/
def ColorStyle.ofSection (v : Value) : Except ShapeError ColorStyle := do
  let fields ← Fields.ofValue "StyleSection" v
  let color := fields.given "color" 0 ColorStyle.ofValue
  fields.check [("color", Fields.fault? color)]
  return (← color).getD .empty

def Document.ofValue (v : Value) : Except ShapeError Document := do
  let fields ← Fields.ofValue "Document" v
  let project := fields.given "project" 0 ProjectSection.ofValue
  let style := fields.given "style" 1 ColorStyle.ofSection
  let task := fields.given "task" 2 (readList TaskRecord.ofValue)
  let milestone := fields.given "milestone" 3 (readList MilestoneRecord.ofValue)
  let group := fields.given "group" 4 (readList GroupRecord.ofValue)
  fields.check [("project", Fields.fault? project), ("style", Fields.fault? style),
    ("task", Fields.fault? task), ("milestone", Fields.fault? milestone),
    ("group", Fields.fault? group)]
  return ⟨(← project).getD .empty, (← style).getD .empty, (← task).getD [],
    (← milestone).getD [], (← group).getD []⟩

end GanttChart
