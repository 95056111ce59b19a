import GanttChart.Yaml.Document
import GanttChart.Yaml.Plain

/-! YAML text as a structured value. Keys are texts, whatever they look like; of entries with one
key the last counts. Tags of the core kind are obeyed where a kind of scalar is named, and tags of
applications are refused when they are texts. -/

namespace GanttChart.Yaml

/-- Whether a tag is one of an application: it starts with an exclamation mark. -/
def isLocalTag (tag : Tag) : Bool := tag.head? == some '!'.toNat

/-- Whether a node may have a tag. Those of applications are refused, unless they are no text and so
name nothing. -/
def allowsTag (tag : Tag) : Bool := !isLocalTag tag || (Text.Utf8.decode tag).toOption.isNone

def untaggedValue? (text : String) (plain : Bool) : Option Value :=
  if plain then Plain.value? text else some (.str text)

/-- The value of a scalar with a tag that it may have. -/
def taggedValue? (tag : Tag) (text : String) (plain : Bool) : Option Value :=
  if tag = coreTag "bool" then (Plain.bool? text).map .bool
  else if tag = coreTag "int" then (Plain.whole? text).bind Plain.wholeValue?
  else if tag = coreTag "float" then (Plain.float? text).map .ofFloat
  else if tag = coreTag "null" then (if Plain.isNull text then some .null else none)
  else if isLocalTag tag then untaggedValue? text plain
  else some (.str text)

def scalarValue? (tag : Option Tag) (text : String) (plain : Bool) : Option Value :=
  match tag with
  | some tag => taggedValue? tag text plain
  | none => untaggedValue? text plain

/-- What aliases mean: the anchored nodes by their slots, the latest first. -/
structure Aliases where
  anchors : List (Nat × Node)

/-- Follows an alias to the node it means, which takes one of the steps that are left. -/
def Aliases.follow (a : Aliases) : Node → StateT Nat Option Node
  | .reference slot => fun steps =>
    match steps, a.anchors.find? fun p => p.1 == slot with
    | left + 1, some (_, node) => some (node, left)
    | _, _ => none
  | .anchored _ node => pure node
  | node => pure node

def Aliases.key (a : Aliases) (node : Node) : StateT Nat Option String := do
  match ← a.follow node with
  | .scalar _ text _ => return text
  | _ => failure

/-- The value of a node in which others are nested at most `depth` deep. -/
def Aliases.value (a : Aliases) : Nat → Node → StateT Nat Option Value
  | depth, node => do
    match ← a.follow node, depth with
    | .scalar tag text plain, _ =>
      if tag.all allowsTag then (scalarValue? tag text plain : Option Value) else failure
    | .sequence tag items, depth + 1 =>
      if tag.all allowsTag then return .list (← items.mapM (a.value depth)) else failure
    | .mapping tag entries, depth + 1 =>
      if tag.all allowsTag then
        let fields ← entries.mapM fun (k, v) => do
          let key ← a.key k
          return (key, ← a.value depth v)
        return Value.ofFields fields
      else failure
    | _, _ => failure

def nestingLimit : Nat := 128

/-- How many aliases may be followed for each part of a document. -/
def aliasLimit : Nat := 100

def Node.value? (root : Node) : Option Value :=
  (Aliases.value ⟨root.anchors.reverse⟩ nestingLimit root (aliasLimit * root.size)).map (·.1)

def isPrintable (c : Char) : Bool :=
  let n := c.toNat
  n == 0x09 || n == 0x0A || n == 0x0D || (0x20 ≤ n && n ≤ 0x7E) || n == 0x85
    || (0xA0 ≤ n && n ≤ 0xFFFD) || 0x10000 ≤ n

/-- Reads a text as a value; none when it is no YAML document. -/
def read? (s : String) : Option Value :=
  let cs := s.toList
  if cs.all isPrintable then ((Token.ofChars? cs).bind Node.ofTokens?).bind Node.value? else none

end GanttChart.Yaml
