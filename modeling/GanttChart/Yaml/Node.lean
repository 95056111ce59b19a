import GanttChart.Yaml.Scan

/-! YAML documents as trees of nodes. A stream holds one document at most here. Tags are written
out in full, and an alias names the slot of the anchor it means. -/

namespace GanttChart.Yaml

inductive Node where
  | scalar (tag : Option Tag) (text : String) (plain : Bool)
  | sequence (tag : Option Tag) (items : List Node)
  | mapping (tag : Option Tag) (entries : List (Node × Node))
  /-- A node with an anchor in the given slot. -/
  | anchored (slot : Nat) (node : Node)
  | reference (slot : Nat)

namespace Node

/-- What stands where nothing is written. -/
def empty : Node := scalar none "" true

mutual

/-- How many marks it takes to write the node down in a row: one for a scalar or an alias, two for
what holds other nodes. -/
def size : Node → Nat
  | scalar _ _ _ => 1
  | sequence _ items => sizes items + 2
  | mapping _ entries => entrySizes entries + 2
  | anchored _ node => node.size
  | reference _ => 1

def sizes : List Node → Nat
  | [] => 0
  | n :: rest => n.size + sizes rest

def entrySizes : List (Node × Node) → Nat
  | [] => 0
  | (k, v) :: rest => k.size + v.size + entrySizes rest

end

mutual

/-- The anchored nodes by their slots, in the order in which they start. -/
def anchors : Node → List (Nat × Node)
  | scalar _ _ _ => []
  | sequence _ items => anchorsOf items
  | mapping _ entries => entryAnchors entries
  | anchored slot node => (slot, node) :: node.anchors
  | reference _ => []

def anchorsOf : List Node → List (Nat × Node)
  | [] => []
  | n :: rest => n.anchors ++ anchorsOf rest

def entryAnchors : List (Node × Node) → List (Nat × Node)
  | [] => []
  | (k, v) :: rest => k.anchors ++ v.anchors ++ entryAnchors rest

end

end Node

/-- Tokens still to be read and the names known so far. -/
structure Reading where
  tokens : List Token
  /-- Tag handles and what they stand for. -/
  handles : List (String × Tag)
  /-- The slots of anchor names. -/
  slots : List (String × Nat)

abbrev Read := StateT Reading Option

namespace Read

def peek? : Read (Option Token) := do return (← get).tokens.head?

def skip : Read Unit := modify fun r => { r with tokens := r.tokens.drop 1 }

/-- Goes over the given token if it is the next one. -/
def takes (t : Token) : Read Bool := do
  if (← peek?) == some t then
    skip
    return true
  else return false

def expect (t : Token) : Read Unit := do if !(← takes t) then failure

/-- Whether the next token is one of the given ones. -/
def atAny (tokens : List Token) : Read Bool := do return (← peek?).any tokens.contains

/-- Gives a name the next slot, which has the number of the names known so far. -/
def anchor (name : String) : Read Nat := do
  let r ← get
  let slot := r.slots.length
  set { r with slots := (name, slot) :: r.slots.filter fun s => s.1 != name }
  return slot

/-- The slot of a name that must be known. -/
def slot (name : String) : Read Nat := do
  match (← get).slots.find? fun s => s.1 == name with
  | some (_, slot) => return slot
  | none => failure

/-- A tag in full; the handle must be known. -/
def tag (handle : String) (suffix : Tag) : Read Tag := do
  if handle.isEmpty then return suffix
  match (← get).handles.find? fun h => h.1 == handle with
  | some (_, lead) => return lead ++ suffix
  | none => failure

def anchor? : Read (Option Nat) := do
  match ← peek? with
  | some (.anchor name) =>
    skip
    return some (← anchor name)
  | _ => return none

def tag? : Read (Option Tag) := do
  match ← peek? with
  | some (.tag handle suffix) =>
    skip
    return some (← tag handle suffix)
  | _ => return none

/-- An anchor and a tag, in either order; both may be missing. -/
def properties : Read (Option Nat × Option Tag) := do
  let slot ← anchor?
  let tag ← tag?
  match slot with
  | some _ => return (slot, tag)
  | none => return (← anchor?, tag)

/-- A node of which nothing but properties is written; without those there is no node. -/
def emptyContent (slot : Option Nat) (tag : Option Tag) : Read Node :=
  if slot.isSome || tag.isSome then return .scalar tag "" true else failure

mutual

/-- Reads a node. `blocks` says whether a block may start, and `dashes` whether a sequence may start
without a block of its own. -/
def node (blocks dashes : Bool) : Nat → Read Node
  | 0 => failure
  | fuel + 1 => do
    match ← peek? with
    | some (.reference name) =>
      skip
      return .reference (← slot name)
    | _ =>
      let (slot, tag) ← properties
      let content ← content blocks dashes slot tag fuel
      match slot with
      | some slot => return .anchored slot content
      | none => return content

/-- Reads what follows the properties of a node; with some of them it may be empty. -/
def content (blocks dashes : Bool) (slot : Option Nat) (tag : Option Tag) : Nat → Read Node
  | 0 => failure
  | fuel + 1 => do
    match ← peek? with
    | some (.scalar text plain) =>
      skip
      return .scalar tag text plain
    | some .flowSequenceStart =>
      skip
      return .sequence tag (← flowItems true fuel)
    | some .flowMappingStart =>
      skip
      return .mapping tag (← flowEntries true fuel)
    | some .blockSequenceStart =>
      if blocks then
        skip
        return .sequence tag (← blockItems fuel)
      else emptyContent slot tag
    | some .blockMappingStart =>
      if blocks then
        skip
        return .mapping tag (← blockEntries fuel)
      else emptyContent slot tag
    | some .blockEntry =>
      if dashes then return .sequence tag (← dashItems fuel) else emptyContent slot tag
    | _ => emptyContent slot tag

/-- A node, or an empty one before the given tokens. -/
def nodeUnless (stops : List Token) (blocks dashes : Bool) : Nat → Read Node
  | 0 => failure
  | fuel + 1 => do
    if ← atAny stops then return .empty else node blocks dashes fuel

/-- The items of a sequence that is a block of its own. -/
def blockItems : Nat → Read (List Node)
  | 0 => failure
  | fuel + 1 => do
    if ← takes .blockEntry then
      let item ← nodeUnless [.blockEntry, .blockEnd] true false fuel
      return item :: (← blockItems fuel)
    else
      expect .blockEnd
      return []

/-- The items of a sequence in the column of the key it belongs to. -/
def dashItems : Nat → Read (List Node)
  | 0 => failure
  | fuel + 1 => do
    if ← takes .blockEntry then
      let item ← nodeUnless [.blockEntry, .key, .value, .blockEnd] true false fuel
      return item :: (← dashItems fuel)
    else return []

def blockEntries : Nat → Read (List (Node × Node))
  | 0 => failure
  | fuel + 1 => do
    if ← takes .key then
      let key ← nodeUnless [.key, .value, .blockEnd] true true fuel
      let value ←
        if ← takes .value then nodeUnless [.key, .value, .blockEnd] true true fuel
        else pure .empty
      return (key, value) :: (← blockEntries fuel)
    else
      expect .blockEnd
      return []

/-- The items of a sequence between brackets. A key among them is a mapping of one entry; where
such a key is left out, so is the token behind it. -/
def flowItems (first : Bool) : Nat → Read (List Node)
  | 0 => failure
  | fuel + 1 => do
    if ← takes .flowSequenceEnd then return []
    if !first then expect .flowEntry
    if ← takes .flowSequenceEnd then return []
    let item ←
      if ← takes .key then
        let leftOut ← atAny [.value, .flowEntry, .flowSequenceEnd]
        let key ← nodeUnless [.value, .flowEntry, .flowSequenceEnd] false false fuel
        if leftOut then skip
        let value ←
          if ← takes .value then nodeUnless [.flowEntry, .flowSequenceEnd] false false fuel
          else pure .empty
        pure (Node.mapping none [(key, value)])
      else node false false fuel
    return item :: (← flowItems false fuel)

/-- The entries of a mapping between braces; a node alone is a key without a value. -/
def flowEntries (first : Bool) : Nat → Read (List (Node × Node))
  | 0 => failure
  | fuel + 1 => do
    if ← takes .flowMappingEnd then return []
    if !first then expect .flowEntry
    if ← takes .flowMappingEnd then return []
    let entry ←
      if ← takes .key then
        let key ← nodeUnless [.value, .flowEntry, .flowMappingEnd] false false fuel
        let value ←
          if ← takes .value then nodeUnless [.flowEntry, .flowMappingEnd] false false fuel
          else pure .empty
        pure (key, value)
      else
        let key ← node false false fuel
        pure (key, Node.empty)
    return entry :: (← flowEntries false fuel)

end

end Read

end GanttChart.Yaml
