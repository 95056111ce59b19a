/-! A place in a YAML text: what is still to be read, and where that is. Columns count characters
from the last line break; YAML takes its structure from them. -/

namespace GanttChart.Yaml

/-- Line breaks, the two Unicode separators and the next-line character among them. -/
def isBreak (c : Char) : Bool :=
  c == '\n' || c == '\r' || c == '\x85' || c == '\u2028' || c == '\u2029'

def isBlank (c : Char) : Bool := c == ' ' || c == '\t'

/-- What separates words. -/
def isGap (c : Char) : Bool := isBlank c || isBreak c

/-- What names of anchors, tags and directives are made of. -/
def isWord (c : Char) : Bool := c.isAlphanum || c == '_' || c == '-'

structure Cursor where
  rest : List Char
  /-- How many characters are left, kept so that it need not be counted again. -/
  left : Nat
  /-- How many octets the characters behind take. -/
  index : Nat
  line : Nat
  column : Nat
  left_eq : left = rest.length

namespace Cursor

def ofChars (cs : List Char) : Cursor := ⟨cs, cs.length, 0, 0, 0, rfl⟩

def peek? (c : Cursor) : Option Char := c.rest.head?

/-- Whether the character `n` places on is `ch`. -/
def hasAt (c : Cursor) (n : Nat) (ch : Char) : Bool := c.rest[n]? == some ch

/-- Whether a word ends `n` places on: by a gap or with the text. -/
def gapAt (c : Cursor) (n : Nat) : Bool := c.rest[n]?.all isGap

/-- Whether a line ends here: by a break or with the text. -/
def atLineEnd (c : Cursor) : Bool := c.peek?.all isBreak

def indexAfter (c : Cursor) (n : Nat) : Nat :=
  (c.rest.take n).foldl (fun index ch => index + ch.utf8Size) c.index

/-- Goes over `n` characters, none of which is a break. -/
def advance (c : Cursor) (n : Nat) : Cursor :=
  ⟨c.rest.drop n, c.left - n, c.indexAfter n, c.line, c.column + n, by simp [c.left_eq]⟩

/-- The characters that `p` accepts, and the place behind them. -/
def span (p : Char → Bool) (c : Cursor) : List Char × Cursor :=
  let taken := c.rest.takeWhile p
  (taken, c.advance taken.length)

def skipWhile (p : Char → Bool) (c : Cursor) : Cursor := (c.span p).2

/-- Goes over a byte order mark at the start of a line. It means nothing, but takes a column. -/
def skipByteOrderMark (c : Cursor) : Cursor :=
  if c.column = 0 ∧ c.peek? = some '\ufeff' then c.advance 1 else c

/-- Goes over a break, if there is one, and gives what it stands for: the separators stand for
themselves, all others for a line feed. A carriage return and the line feed after it are one. -/
def lineBreak (c : Cursor) : List Char × Cursor :=
  let past (n : Nat) : Cursor :=
    ⟨c.rest.drop n, c.left - n, c.indexAfter n, c.line + 1, 0, by simp [c.left_eq]⟩
  match c.rest with
  | '\r' :: '\n' :: _ => (['\n'], past 2)
  | '\u2028' :: _ => (['\u2028'], past 1)
  | '\u2029' :: _ => (['\u2029'], past 1)
  | ch :: _ => if isBreak ch then (['\n'], past 1) else ([], c)
  | [] => ([], c)

/-- Whether a line starts here with `mark` as its only word so far. -/
def atMark (c : Cursor) (mark : List Char) : Bool :=
  c.column == 0 && mark.isPrefixOf c.rest && c.gapAt mark.length

def atDocumentStart (c : Cursor) : Bool := c.atMark ['-', '-', '-']

def atDocumentEnd (c : Cursor) : Bool := c.atMark ['.', '.', '.']

def atDocumentMark (c : Cursor) : Bool := c.atDocumentStart || c.atDocumentEnd

/-- Goes to the end of the line when only blanks and a comment are left of it. -/
def endOfLine? (c : Cursor) : Option Cursor :=
  let c := c.skipWhile isBlank
  let c := if c.peek? == some '#' then c.skipWhile fun ch => !isBreak ch else c
  if c.atLineEnd then some c.lineBreak.2 else none

end Cursor

end GanttChart.Yaml
