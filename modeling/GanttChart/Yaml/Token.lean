import GanttChart.Number.Hexadecimal
import GanttChart.Number.Reader
import GanttChart.Yaml.Cursor

/-! Tokens of YAML, and reading those that are names: directives, anchors, aliases and tags. Tags
are octets, since those that are written behind percent signs need not be a text. -/

namespace GanttChart.Yaml

/-- The octets of a tag, or of a part of one. -/
abbrev Tag := List Nat

inductive Token where
  | version (major minor : Nat)
  | tagDirective (handle : String) (lead : Tag)
  | documentStart
  | documentEnd
  | blockSequenceStart
  | blockMappingStart
  | blockEnd
  | flowSequenceStart
  | flowSequenceEnd
  | flowMappingStart
  | flowMappingEnd
  | blockEntry
  | flowEntry
  | key
  | value
  | reference (name : String)
  | anchor (name : String)
  | tag (handle : String) (suffix : Tag)
  | scalar (text : String) (plain : Bool)
  deriving DecidableEq

namespace Token

/-- What may stand right behind the name of an anchor, besides a gap. -/
def endsName (c : Char) : Bool :=
  ['?', ':', ',', ']', '\x7d', '%', '@', '\x60'].contains c

def readName? (c : Cursor) : Option (String × Cursor) :=
  let (name, c) := c.span isWord
  if name.isEmpty then none
  else if c.peek?.all fun ch => isGap ch || endsName ch then some (String.ofList name, c)
  else none

/-- Characters of a tag that stand for themselves, besides those of words; the brackets and the
comma only in a tag between angle brackets. -/
def isTagMark (verbatim : Bool) (c : Char) : Bool :=
  [';', '/', '?', ':', '@', '&', '=', '+', '$', '.', '!', '~', '*', '\x27', '(', ')'].contains c
    || (verbatim && (c == ',' || c == '[' || c == ']'))

/-- The octet that a percent sign and two hexadecimal digits stand for. -/
def readOctet? : List Char → Option Nat
  | '%' :: a :: b :: _ => Number.hexValue? [a, b]
  | _ => none

/-- How many octets a character takes whose first octet is given. -/
def octetCount? (n : Nat) : Option Nat :=
  if n < 0x80 then some 1
  else if n / 32 = 6 then some 2
  else if n / 16 = 14 then some 3
  else if n / 8 = 30 then some 4
  else none

/-- Reads further octets of a character, gathered backwards. -/
def readTrail? : Nat → List Nat → Cursor → Option (List Nat × Cursor)
  | 0, held, c => some (held, c)
  | count + 1, held, c =>
    match readOctet? c.rest with
    | some n => if n / 64 = 2 then readTrail? count (n :: held) (c.advance 3) else none
    | none => none

/-- Reads a character written as octets behind percent signs, gathered backwards. Only their number
and their kind are looked at, so that they may encode nothing. -/
def readEscaped? (held : List Nat) (c : Cursor) : Option (List Nat × Cursor) := do
  let first ← readOctet? c.rest
  let count ← octetCount? first
  readTrail? (count - 1) (first :: held) (c.advance 3)

/-- Reads the octets of a tag, gathered backwards. -/
def readTagText? (verbatim : Bool) : Nat → List Nat → Cursor → Option (List Nat × Cursor)
  | 0, held, c => some (held.reverse, c)
  | tries + 1, held, c =>
    match c.peek? with
    | none => some (held.reverse, c)
    | some ch =>
      if ch == '%' then
        match readEscaped? held c with
        | some (held, c) => readTagText? verbatim tries held c
        | none => none
      else if isWord ch || isTagMark verbatim ch then
        readTagText? verbatim tries (ch.toNat :: held) (c.advance 1)
      else some (held.reverse, c)

/-- A tag ends before its first zero octet. -/
def untilZero (octets : List Nat) : Tag := octets.takeWhile (· != 0)

/-- Reads the octets of a tag, of which there must be one. -/
def readTagUri? (verbatim : Bool) (c : Cursor) : Option (Tag × Cursor) :=
  match readTagText? verbatim c.left [] c with
  | some (octets, after) => if octets.isEmpty then none else some (untilZero octets, after)
  | none => none

/-- An exclamation mark, a word, and perhaps a second exclamation mark. -/
def readHandle? (c : Cursor) : Option (List Char × Cursor) :=
  if c.peek? == some '!' then
    let (word, after) := (c.advance 1).span isWord
    if after.peek? == some '!' then some ('!' :: (word ++ ['!']), after.advance 1)
    else some ('!' :: word, after)
  else none

/-- Whether a handle is a mark at both ends of a word that may be empty. -/
def isNamedHandle (handle : List Char) : Bool :=
  1 < handle.length && handle.getLast? == some '!'

/-- Reads the handle and the suffix of a tag. A tag between angle brackets has no handle; neither
has a lone exclamation mark, which is its own suffix. -/
def readTagParts? (c : Cursor) : Option (Token × Cursor) :=
  if c.hasAt 1 '<' then do
    let (suffix, c) ← readTagUri? true (c.advance 2)
    if c.peek? == some '>' then some (.tag "" suffix, c.advance 1) else none
  else do
    let (handle, after) ← readHandle? c
    if isNamedHandle handle then
      let (suffix, c) ← readTagUri? false after
      some (.tag (String.ofList handle) suffix, c)
    else
      let (more, c) ← readTagText? false after.left [] after
      let suffix := untilZero ((handle.drop 1).map Char.toNat ++ more)
      if suffix.isEmpty then some (.tag "" ['!'.toNat], c) else some (.tag "!" suffix, c)

/-- Reads a tag, which must be followed by a gap, or by a comma between brackets. -/
def readTag? (flow : Bool) (c : Cursor) : Option (Token × Cursor) := do
  let (token, c) ← readTagParts? c
  if c.gapAt 0 || (flow && c.peek? == some ',') then some (token, c) else none

/-- Reads a number of at most nine digits. -/
def readVersionPart? (c : Cursor) : Option (Nat × Cursor) :=
  let (digits, c) := c.span Char.isDigit
  if digits.isEmpty || 9 < digits.length then none else some (Number.digitsValue digits, c)

def readVersion? (c : Cursor) : Option (Token × Cursor) := do
  let (major, c) ← readVersionPart? (c.skipWhile isBlank)
  if c.peek? == some '.' then
    let (minor, c) ← readVersionPart? (c.advance 1)
    some (.version major minor, c)
  else none

/-- Reads the handle of a directive and what it stands for. -/
def readTagDirective? (c : Cursor) : Option (Token × Cursor) := do
  let (handle, c) ← readHandle? (c.skipWhile isBlank)
  if (handle == ['!'] || isNamedHandle handle) && c.peek?.any isBlank then
    let (lead, c) ← readTagUri? true (c.skipWhile isBlank)
    if c.gapAt 0 then some (.tagDirective (String.ofList handle) lead, c) else none
  else none

/-- Reads a directive behind its percent sign, up to and over the end of its line. There are two
kinds of directives. -/
def readDirective? (c : Cursor) : Option (Token × Cursor) := do
  let (name, c) := c.span isWord
  if c.gapAt 0 then
    let (token, c) ←
      if name = "YAML".toList then readVersion? c
      else if name = "TAG".toList then readTagDirective? c
      else none
    let c ← c.endOfLine?
    some (token, c)
  else none

end Token

end GanttChart.Yaml
