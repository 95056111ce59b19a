import GanttChart.Yaml.Scalar
import GanttChart.Yaml.Token

/-! From a YAML text to its tokens. Blocks are opened and closed by the columns in which tokens
start. A colon makes a key of what stands before it on the line, so the place of whatever may turn
out to be a key is kept, and the tokens of the key are put in there once its colon is met. -/

namespace GanttChart.Yaml

/-- Where something starts that may be a key. -/
structure KeyPlace where
  /-- How many tokens stand before it. -/
  token : Nat
  index : Nat
  line : Nat
  column : Nat
  /-- Whether nothing but a key can stand there. -/
  required : Bool

structure Scan where
  cursor : Cursor
  tokens : Array Token
  /-- The columns of the open blocks, the innermost first. -/
  columns : List Nat
  /-- The place of a possible key in the innermost brackets. -/
  key : Option KeyPlace
  /-- The same for every bracket around those. -/
  outerKeys : List (Option KeyPlace)
  /-- Whether a key may start here. -/
  keyAllowed : Bool

namespace Scan

def start (cs : List Char) : Scan := ⟨.ofChars cs, #[], [], none, [], true⟩

/-- Whether brackets are open; columns mean nothing between them. -/
def inFlow (s : Scan) : Bool := !s.outerKeys.isEmpty

def emit (s : Scan) (t : Token) : Scan := { s with tokens := s.tokens.push t }

/-- Emits a token that is `n` characters long. -/
def take (s : Scan) (n : Nat) (t : Token) : Scan :=
  { s with tokens := s.tokens.push t, cursor := s.cursor.advance n }

/-- The column just right of the innermost block. -/
def innerColumn (s : Scan) : Nat :=
  match s.columns with
  | column :: _ => column + 1
  | [] => 0

/-- Closes the blocks whose columns `p` accepts, from the innermost outwards. -/
def closeBlocks (s : Scan) (p : Nat → Bool) : Scan :=
  if s.inFlow then s
  else
    let closed := s.columns.takeWhile p
    { s with
      columns := s.columns.drop closed.length
      tokens := s.tokens ++ List.replicate closed.length Token.blockEnd }

/-- Opens a block in a column unless one is open there or further right; its token becomes the one
with number `place`. -/
def openBlock (s : Scan) (column place : Nat) (t : Token) : Scan :=
  if s.inFlow || column < s.innerColumn then s
  else { s with columns := column :: s.columns, tokens := s.tokens.insertIdxIfInBounds place t }

def openBlockHere (s : Scan) (t : Token) : Scan := s.openBlock s.cursor.column s.tokens.size t

/-- Gives up the possible key; one that was required is missed. -/
def dropKey? (s : Scan) : Option Scan :=
  if s.key.any KeyPlace.required then none else some { s with key := none }

/-- Keeps this place as that of a possible key. -/
def keepKey? (s : Scan) : Option Scan :=
  if s.keyAllowed then
    let c := s.cursor
    let required := !s.inFlow && s.columns.head? == some c.column
    s.dropKey?.map fun s =>
      { s with key := some ⟨s.tokens.size, c.index, c.line, c.column, required⟩ }
  else some s

/-- Whether a place lies too far back for its key: on another line, or more than 1024 octets. -/
def KeyPlace.isStale (k : KeyPlace) (c : Cursor) : Bool :=
  k.line < c.line || k.index + 1024 < c.index

/-- Gives up a possible key that lies too far back; one that was required is missed. -/
def fresh? (c : Cursor) : Option KeyPlace → Option (Option KeyPlace)
  | none => some none
  | some k =>
    if KeyPlace.isStale k c then (if k.required then none else some none) else some (some k)

def dropStaleKeys? (s : Scan) : Option Scan := do
  let key ← fresh? s.cursor s.key
  let outerKeys ← s.outerKeys.mapM (fresh? s.cursor)
  some { s with key := key, outerKeys := outerKeys }

/-- Goes over byte order marks, blanks, comments and line breaks. A tab is no blank where a key may
start, and outside of brackets a new line may start with a key. -/
def skipGaps : Nat → Scan → Scan
  | 0, s => s
  | tries + 1, s =>
    let blank (ch : Char) : Bool := ch == ' ' || ((s.inFlow || !s.keyAllowed) && ch == '\t')
    let c := s.cursor.skipByteOrderMark.skipWhile blank
    let c := if c.peek? == some '#' then c.skipWhile fun ch => !isBreak ch else c
    if c.peek?.any isBreak then
      skipGaps tries { s with cursor := c.lineBreak.2, keyAllowed := s.keyAllowed || !s.inFlow }
    else { s with cursor := c }

/-- A directive or a mark between documents closes all blocks. -/
def closeAll? (s : Scan) : Option Scan :=
  (s.closeBlocks fun _ => true).dropKey?.map fun s => { s with keyAllowed := false }

def directive? (s : Scan) : Option Scan := do
  let s ← s.closeAll?
  let (t, c) ← Token.readDirective? (s.cursor.advance 1)
  some { s.emit t with cursor := c }

def documentMark? (s : Scan) (t : Token) : Option Scan := s.closeAll?.map fun s => s.take 3 t

/-- An opening bracket may itself start a key, and so may what follows it. -/
def openFlow? (s : Scan) (t : Token) : Option Scan :=
  s.keepKey?.map fun s =>
    { s.take 1 t with key := none, outerKeys := s.key :: s.outerKeys, keyAllowed := true }

def closeFlow? (s : Scan) (t : Token) : Option Scan :=
  s.dropKey?.map fun s =>
    let s := { s.take 1 t with keyAllowed := false }
    match s.outerKeys with
    | key :: rest => { s with key := key, outerKeys := rest }
    | [] => s

def flowEntry? (s : Scan) : Option Scan :=
  s.dropKey?.map fun s => { s.take 1 .flowEntry with keyAllowed := true }

/-- A dash opens a sequence outside of brackets, where a key could start. -/
def blockEntry? (s : Scan) : Option Scan :=
  if !s.inFlow && !s.keyAllowed then none
  else
    (s.openBlockHere .blockSequenceStart).dropKey?.map fun s =>
      { s.take 1 .blockEntry with keyAllowed := true }

/-- A question mark opens a mapping outside of brackets, where a key could start. -/
def keyMark? (s : Scan) : Option Scan :=
  if !s.inFlow && !s.keyAllowed then none
  else
    (s.openBlockHere .blockMappingStart).dropKey?.map fun s =>
      { s.take 1 .key with keyAllowed := !s.inFlow }

/-- A colon makes a key of what stands at the place kept for it. Without such a place it follows a
key behind a question mark, and outside of brackets it has to stand where a key could start. -/
def valueMark? (s : Scan) : Option Scan :=
  match s.key with
  | some k =>
    let s := { s with tokens := s.tokens.insertIdxIfInBounds k.token .key, key := none }
    let s := s.openBlock k.column k.token .blockMappingStart
    some { s.take 1 .value with keyAllowed := false }
  | none =>
    if !s.inFlow && !s.keyAllowed then none
    else some { (s.openBlockHere .blockMappingStart).take 1 .value with keyAllowed := !s.inFlow }

/-- A token that may be a key and cannot be followed by one on its line. -/
def keyLike? (s : Scan) (read : Cursor → Option (Token × Cursor)) : Option Scan := do
  let s ← s.keepKey?
  let (t, c) ← read s.cursor
  some { s.emit t with cursor := c, keyAllowed := false }

def named? (s : Scan) (token : String → Token) : Option Scan :=
  s.keyLike? fun c => (Token.readName? (c.advance 1)).map fun (name, c) => (token name, c)

def quoted? (s : Scan) (quote : Char) : Option Scan :=
  s.keyLike? fun c =>
    (Scalar.readQuoted? quote (c.left + 1) [] (c.advance 1)).map fun (text, c) =>
      (.scalar (String.ofList text) false, c)

def block? (s : Scan) (literal : Bool) : Option Scan := do
  let s ← s.dropKey?
  let (text, c) ← Scalar.readBlock? literal s.columns.head? (s.cursor.advance 1)
  some { s.emit (.scalar (String.ofList text) false) with cursor := c, keyAllowed := true }

/-- A plain scalar; when a line has ended behind it, a key may follow. -/
def plain? (s : Scan) : Option Scan := do
  let s ← s.keepKey?
  let (p, c) ←
    Scalar.readPlain? s.inFlow s.innerColumn (s.cursor.left + 1) [] .empty s.cursor
  some { s.emit (.scalar (String.ofList p.text) true) with cursor := c, keyAllowed := p.broken }

/-- Characters that start no plain scalar. -/
def isIndicator (c : Char) : Bool :=
  "-?:,[]\x7b\x7d#&*!|>\x27\"%@\x60".toList.contains c

/-- Whether a plain scalar starts here: with no indicator, with a dash before anything but a blank,
or outside of brackets with a question mark or a colon before anything but a gap. -/
def startsPlain (s : Scan) (ch : Char) : Bool :=
  !(isGap ch || isIndicator ch)
    || (ch == '-' && !(s.cursor.rest[1]?.any isBlank))
    || (!s.inFlow && (ch == '?' || ch == ':') && !s.cursor.gapAt 1)

/-- Reads the token that starts with the given character. -/
def token? (s : Scan) (ch : Char) : Option Scan :=
  if s.cursor.column = 0 ∧ ch = '%' then s.directive?
  else if s.cursor.atDocumentStart then s.documentMark? .documentStart
  else if s.cursor.atDocumentEnd then s.documentMark? .documentEnd
  else if ch = '[' then s.openFlow? .flowSequenceStart
  else if ch = '\x7b' then s.openFlow? .flowMappingStart
  else if ch = ']' then s.closeFlow? .flowSequenceEnd
  else if ch = '\x7d' then s.closeFlow? .flowMappingEnd
  else if ch = ',' then s.flowEntry?
  else if ch = '-' ∧ s.cursor.gapAt 1 then s.blockEntry?
  else if ch = '?' ∧ (s.inFlow || s.cursor.gapAt 1) then s.keyMark?
  else if ch = ':' ∧ (s.inFlow || s.cursor.gapAt 1) then s.valueMark?
  else if ch = '*' then s.named? .reference
  else if ch = '&' then s.named? .anchor
  else if ch = '!' then s.keyLike? (Token.readTag? s.inFlow)
  else if ch = '|' ∧ !s.inFlow then s.block? true
  else if ch = '>' ∧ !s.inFlow then s.block? false
  else if ch = '\x27' then s.quoted? '\x27'
  else if ch = '"' then s.quoted? '"'
  else if s.startsPlain ch then s.plain?
  else none

/-- Reads all tokens that are left. Every one of them takes a character at least, so their number
is bounded by that of the characters. -/
def run? : Nat → Scan → Option (Array Token)
  | 0, _ => none
  | tries + 1, s => do
    let s ← (skipGaps (s.cursor.left + 1) s).dropStaleKeys?
    let s := s.closeBlocks fun column => s.cursor.column < column
    match s.cursor.peek? with
    | none => s.closeAll?.map tokens
    | some ch => run? tries (← s.token? ch)

end Scan

/-- The tokens of a text; none when it is no YAML. -/
def Token.ofChars? (cs : List Char) : Option (List Token) :=
  (Scan.run? (cs.length + 1) (.start cs)).map Array.toList

end GanttChart.Yaml
