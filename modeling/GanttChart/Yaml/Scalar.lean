import GanttChart.Number.Hexadecimal
import GanttChart.Yaml.Cursor

/-! Reading scalars: plain ones, quoted ones and blocks. Lines of plain and quoted scalars are
folded: a single line break between two words becomes a space, and of several breaks the first is
dropped. Text is gathered backwards. -/

namespace GanttChart.Yaml

/-- What lies between two words of a scalar. -/
structure Gap where
  blanks : List Char
  firstBreak : List Char
  laterBreaks : List Char
  /-- Whether a line ended in the gap. -/
  broken : Bool

namespace Gap

def empty : Gap := ⟨[], [], [], false⟩

/-- The gap at the start of a line whose break means nothing. -/
def afterBreak : Gap := ⟨[], [], [], true⟩

/-- Blanks count only as long as no line has ended. -/
def addBlank (g : Gap) (c : Char) : Gap :=
  if g.broken then g else { g with blanks := g.blanks ++ [c] }

def addBreak (g : Gap) (b : List Char) : Gap :=
  if g.broken then { g with laterBreaks := g.laterBreaks ++ b }
  else { g with blanks := [], firstBreak := b, broken := true }

/-- What the gap stands for in the text. -/
def fold (g : Gap) : List Char :=
  if g.broken then
    if g.firstBreak = ['\n'] then (if g.laterBreaks.isEmpty then [' '] else g.laterBreaks)
    else g.firstBreak ++ g.laterBreaks
  else g.blanks

/-- Reads on to the end of a gap. At the start of a line a tab before the column `least` is
refused. -/
def read? (least : Nat) : Nat → Gap → Cursor → Option (Gap × Cursor)
  | 0, g, c => some (g, c)
  | tries + 1, g, c =>
    match c.peek? with
    | none => some (g, c)
    | some ch =>
      if isBlank ch then
        if g.broken && c.column < least && ch == '\t' then none
        else read? least tries (g.addBlank ch) (c.advance 1)
      else if isBreak ch then
        let (b, after) := c.lineBreak
        read? least tries (g.addBreak b) after
      else some (g, c)

end Gap

namespace Scalar

/-- Brackets, braces and the comma, which end plain words between brackets. -/
def isFlowMark (c : Char) : Bool :=
  c == ',' || c == '[' || c == ']' || c == '\x7b' || c == '\x7d'

/-- The word at the start of `cs` that a plain scalar may hold. Between brackets a colon must not
stand right before a mark. -/
def plainWord? (flow : Bool) : List Char → Option (List Char)
  | [] => some []
  | c :: cs =>
    if isGap c then some []
    else if flow && c == ':' && (cs.head?.any fun d => isFlowMark d || d == '?') then none
    else if (c == ':' && cs.head?.all isGap) || (flow && isFlowMark c) then some []
    else (plainWord? flow cs).map (c :: ·)

/-- A scalar that has been read: its text, and whether a line has ended behind its last word. -/
structure Plain where
  text : List Char
  broken : Bool

/-- Reads a plain scalar on, with the gap behind what is held already. Outside of brackets its lines
must not start before the column `least`. -/
def readPlain? (flow : Bool) (least : Nat) :
    Nat → List Char → Gap → Cursor → Option (Plain × Cursor)
  | 0, held, g, c => some (⟨held.reverse, g.broken⟩, c)
  | tries + 1, held, g, c =>
    if c.atDocumentMark || c.peek? == some '#' then some (⟨held.reverse, g.broken⟩, c)
    else
      match plainWord? flow c.rest with
      | none => none
      | some [] => some (⟨held.reverse, g.broken⟩, c)
      | some word =>
        let held := word.reverseAux (g.fold.reverseAux held)
        let c := c.advance word.length
        match Gap.read? least c.left .empty c with
        | none => none
        | some (g, after) =>
          if (c.rest.head?.any isGap) && (flow || least ≤ after.column) then
            readPlain? flow least tries held g after
          else some (⟨held.reverse, g.broken⟩, after)

/-- The character behind a backslash and a letter. -/
def escaped? : Char → Option Char
  | '0' => some '\x00'
  | 'a' => some '\x07'
  | 'b' => some '\x08'
  | 't' => some '\t'
  | '\t' => some '\t'
  | 'n' => some '\n'
  | 'v' => some '\x0b'
  | 'f' => some '\x0c'
  | 'r' => some '\r'
  | 'e' => some '\x1b'
  | ' ' => some ' '
  | '"' => some '"'
  | '/' => some '/'
  | '\\' => some '\\'
  | 'N' => some '\x85'
  | '_' => some '\xa0'
  | 'L' => some '\u2028'
  | 'P' => some '\u2029'
  | _ => none

/-- How many hexadecimal digits follow a letter behind a backslash. -/
def codeLength? : Char → Option Nat
  | 'x' => some 2
  | 'u' => some 4
  | 'U' => some 8
  | _ => none

/-- The character with a code point, unless there is none. -/
def charOfCode? (n : Nat) : Option Char := if n.isValidChar then some (Char.ofNat n) else none

/-- What stands for a character behind a backslash, and how long it is. -/
def readEscape? : List Char → Option (Char × Nat)
  | [] => none
  | c :: cs =>
    match codeLength? c with
    | none => (escaped? c).map fun e => (e, 1)
    | some n =>
      if (cs.take n).length < n then none
      else ((Number.hexValue? (cs.take n)).bind charOfCode?).map fun e => (e, n + 1)

/-- Reads characters of a quoted scalar up to its quote, a gap or an escaped break, which is gone
over; `true` for the last. -/
def readRun? (quote : Char) : Nat → List Char → Cursor → Option (List Char × Bool × Cursor)
  | 0, held, c => some (held, false, c)
  | tries + 1, held, c =>
    match c.rest with
    | [] => some (held, false, c)
    | ch :: rest =>
      if isGap ch then some (held, false, c)
      else if ch == quote then
        if quote == '\x27' && rest.head? == some quote then
          readRun? quote tries (quote :: held) (c.advance 2)
        else some (held, false, c)
      else if ch == '\\' && quote == '"' then
        if rest.head?.any isBreak then some (held, true, (c.advance 1).lineBreak.2)
        else
          match readEscape? rest with
          | none => none
          | some (e, n) => readRun? quote tries (e :: held) (c.advance (n + 1))
      else readRun? quote tries (ch :: held) (c.advance 1)

/-- Reads a quoted scalar on, up to and over its closing quote. No document may start or end in
it. -/
def readQuoted? (quote : Char) : Nat → List Char → Cursor → Option (List Char × Cursor)
  | 0, _, _ => none
  | tries + 1, held, c =>
    if c.atDocumentMark || c.rest.isEmpty then none
    else
      match readRun? quote c.left held c with
      | none => none
      | some (held, escapedBreak, c) =>
        if c.peek? == some quote then some (held.reverse, c.advance 1)
        else
          match Gap.read? 0 c.left (if escapedBreak then .afterBreak else .empty) c with
          | none => none
          | some (g, c) => readQuoted? quote tries (g.fold.reverseAux held) c

/-- What becomes of the breaks at the end of a block. -/
inductive Chomp where
  | strip
  | clip
  | keep
  deriving DecidableEq

def chomp? : Char → Option Chomp
  | '-' => some .strip
  | '+' => some .keep
  | _ => none

/-- A digit from one to nine; `none` inside for no digit at all, `none` for a zero. -/
def depth? (c : Cursor) : Option (Option Nat × Cursor) :=
  match c.peek? with
  | some ch =>
    if ch.isDigit then
      if ch == '0' then none else some (some (ch.toNat - '0'.toNat), c.advance 1)
    else some (none, c)
  | none => some (none, c)

def readChomp (c : Cursor) : Option Chomp × Cursor :=
  match c.peek?.bind chomp? with
  | some chomp => (some chomp, c.advance 1)
  | none => (none, c)

/-- Reads what follows the mark of a block: how its end is chomped and how deep it is indented, in
either order, and nothing else on the line. -/
def readHeader? (c : Cursor) : Option (Chomp × Option Nat × Cursor) := do
  let (chomp, c) := readChomp c
  let (depth, c) ← depth? c
  let (chomp, c) :=
    match chomp, depth with
    | none, some _ => readChomp c
    | _, _ => (chomp, c)
  let c ← c.endOfLine?
  some (chomp.getD .clip, depth, c)

/-- Goes over the indentation of a block and gathers the breaks of empty lines. `least` is the
column of the block, or zero when it is still to be found out; the widest indentation met is given
back for that. A tab in the indentation is refused. -/
def readBreaks? (least : Nat) :
    Nat → Nat → List Char → Cursor → Option (List Char × Nat × Cursor)
  | 0, widest, breaks, c => some (breaks, widest, c)
  | tries + 1, widest, breaks, c =>
    let spaces := (c.rest.takeWhile (· == ' ')).length
    let c := c.advance (if least = 0 then spaces else min spaces (least - c.column))
    let widest := max widest c.column
    if (least = 0 || c.column < least) && c.peek? == some '\t' then none
    else if c.peek?.any isBreak then
      let (b, c) := c.lineBreak
      readBreaks? least tries widest (breaks ++ b) c
    else some (breaks, widest, c)

/-- Lines of a block read so far. -/
structure Block where
  /-- The text backwards. -/
  held : List Char
  /-- The break of the last line. -/
  lastBreak : List Char
  /-- The breaks of empty lines after it. -/
  breaks : List Char
  /-- Whether the last line starts with a blank. -/
  blankLine : Bool

/-- Adds a line. Lines of a folded block are joined by a space unless one of them starts with a
blank or empty lines lie between them. -/
def Block.addLine (b : Block) (literal : Bool) (line lineBreak breaks : List Char) : Block :=
  let blankLine := line.head?.any isBlank
  let joined :=
    if !literal && b.lastBreak.head? == some '\n' && !b.blankLine && !blankLine then
      if b.breaks.isEmpty then [' '] else []
    else b.lastBreak
  ⟨line.reverseAux (b.breaks.reverseAux (joined.reverseAux b.held)), lineBreak, breaks, blankLine⟩

def Block.text (b : Block) : Chomp → List Char
  | .strip => b.held.reverse
  | .clip => b.held.reverse ++ b.lastBreak
  | .keep => b.held.reverse ++ b.lastBreak ++ b.breaks

/-- Reads the lines of a block on, for as long as they start at its column. -/
def readLines? (literal : Bool) (column : Nat) : Nat → Block → Cursor → Option (Block × Cursor)
  | 0, b, c => some (b, c)
  | tries + 1, b, c =>
    if c.column = column ∧ ¬ c.rest.isEmpty then
      let (line, c) := c.span fun ch => !isBreak ch
      let (lineBreak, c) := c.lineBreak
      match readBreaks? column c.left 0 [] c with
      | none => none
      | some (breaks, _, c) =>
        readLines? literal column tries (b.addLine literal line lineBreak breaks) c
    else some (b, c)

/-- Reads a block behind its mark. `outer` is the column of what it stands in, if that is a block,
and a column one further on is the least one for its lines. -/
def readBlock? (literal : Bool) (outer : Option Nat) (c : Cursor) :
    Option (List Char × Cursor) := do
  let (chomp, depth, c) ← readHeader? c
  let given := (depth.map fun d => outer.getD 0 + d).getD 0
  let (breaks, widest, c) ← readBreaks? given (c.left + 1) 0 [] c
  let least := (outer.map (· + 1)).getD 0
  let column := if given = 0 then max 1 (max widest least) else given
  let (b, c) ← readLines? literal column (c.left + 1) ⟨[], [], breaks, false⟩ c
  some (b.text chomp, c)

end Scalar

end GanttChart.Yaml
