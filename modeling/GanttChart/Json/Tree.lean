import GanttChart.Json.Numeral
import GanttChart.Number.Hexadecimal

/-! JSON text as a tree of what was written: numbers keep their digits, objects the order and the
repetition of their fields, and a string whose escapes form no text is marked as such. Whoever
reads values out of a tree decides which of those matter. -/

namespace GanttChart.Json

inductive Tree where
  | null
  | bool (b : Bool)
  | number (n : Numeral)
  /-- `none` stands for a string with half of a surrogate pair in it. -/
  | string (s : Option String)
  | array (items : List Tree)
  | object (fields : List (Option String × Tree))

def isSpace (c : Char) : Bool := c == ' ' || c == '\t' || c == '\n' || c == '\r'

def skipSpace (cs : List Char) : List Char := cs.dropWhile isSpace

/-- The character behind a backslash that stands for itself or for a control character. -/
def escaped? : Char → Option Char
  | '"' => some '"'
  | '\\' => some '\\'
  | '/' => some '/'
  | 'b' => some '\x08'
  | 'f' => some '\x0c'
  | 'n' => some '\n'
  | 'r' => some '\r'
  | 't' => some '\t'
  | _ => none

/-- The part of a string read so far: its characters backwards, whether they are text, and the
first half of a surrogate pair that waits for the second. -/
structure Held where
  chars : List Char
  sound : Bool
  lead : Option Nat

def Held.start : Held := ⟨[], true, none⟩

/-- Adds a character; a half pair before it stays without its second half. -/
def Held.push (h : Held) (c : Char) : Held := ⟨c :: h.chars, h.sound && h.lead.isNone, none⟩

/-- Adds a 16-bit unit written as an escape. -/
def Held.pushUnit (h : Held) (n : Nat) : Held :=
  if 0xD800 ≤ n ∧ n ≤ 0xDBFF then ⟨h.chars, h.sound && h.lead.isNone, some n⟩
  else if 0xDC00 ≤ n ∧ n ≤ 0xDFFF then
    match h.lead with
    | some m =>
      ⟨Char.ofNat (0x10000 + (m - 0xD800) * 0x400 + (n - 0xDC00)) :: h.chars, h.sound, none⟩
    | none => ⟨h.chars, false, none⟩
  else h.push (Char.ofNat n)

def Held.text? (h : Held) : Option String :=
  if h.sound && h.lead.isNone then some (String.ofList h.chars.reverse) else none

/-- Reads a string up to its closing quote, the opening one being behind already. -/
def readText? (h : Held) : List Char → Option (Option String × List Char)
  | [] => none
  | '"' :: rest => some (h.text?, rest)
  | '\\' :: 'u' :: a :: b :: c :: d :: rest =>
    match Number.hexValue? [a, b, c, d] with
    | some n => readText? (h.pushUnit n) rest
    | none => none
  | '\\' :: c :: rest =>
    match escaped? c with
    | some e => readText? (h.push e) rest
    | none => none
  | c :: rest => if c.toNat < 0x20 then none else readText? (h.push c) rest

/-- Reads items between commas up to the closing bracket; `tries` bounds their number. -/
def readItems? {α : Type} (item : List Char → Option (α × List Char)) (close : Char) :
    Nat → List α → List Char → Option (List α × List Char)
  | 0, _, _ => none
  | tries + 1, held, cs =>
    match item cs with
    | none => none
    | some (t, rest) =>
      match skipSpace rest with
      | c :: more =>
        if c = ',' then readItems? item close tries (t :: held) more
        else if c = close then some ((t :: held).reverse, more)
        else none
      | [] => none

/-- Reads the items of a bracket just opened, of which there may be none. -/
def readBracket? {α : Type} (item : List Char → Option (α × List Char)) (close : Char)
    (tries : Nat) (cs : List Char) : Option (List α × List Char) :=
  match skipSpace cs with
  | [] => none
  | c :: rest => if c = close then some ([], rest) else readItems? item close tries [] cs

def readField? (value : List Char → Option (Tree × List Char)) (cs : List Char) :
    Option ((Option String × Tree) × List Char) :=
  match skipSpace cs with
  | '"' :: rest =>
    match readText? .start rest with
    | some (key, more) =>
      match skipSpace more with
      | ':' :: after => (value after).map fun (t, left) => ((key, t), left)
      | _ => none
    | none => none
  | _ => none

def readScalar? : List Char → Option (Tree × List Char)
  | 'n' :: 'u' :: 'l' :: 'l' :: rest => some (.null, rest)
  | 't' :: 'r' :: 'u' :: 'e' :: rest => some (.bool true, rest)
  | 'f' :: 'a' :: 'l' :: 's' :: 'e' :: rest => some (.bool false, rest)
  | '"' :: rest => (readText? .start rest).map fun (s, more) => (.string s, more)
  | cs => (readNumeral? cs).map fun (n, rest) => (.number n, rest)

/-- Reads a value in which arrays and objects are nested at most `depth` deep and hold at most
`tries` items each. -/
def readValue? (tries : Nat) : Nat → List Char → Option (Tree × List Char)
  | 0, cs =>
    match skipSpace cs with
    | '[' :: _ => none
    | '\x7b' :: _ => none
    | rest => readScalar? rest
  | depth + 1, cs =>
    match skipSpace cs with
    | '[' :: rest =>
      (readBracket? (readValue? tries depth) ']' tries rest).map fun (items, more) =>
        (.array items, more)
    | '\x7b' :: rest =>
      (readBracket? (readField? (readValue? tries depth)) '\x7d' tries rest).map
        fun (fields, more) => (.object fields, more)
    | rest => readScalar? rest

/-- Reads a whole text as one value nested at most `depth` deep. A text has no more items in it than
characters. -/
def Tree.read? (depth : Nat) (cs : List Char) : Option Tree :=
  match readValue? cs.length depth cs with
  | some (t, rest) => if (skipSpace rest).isEmpty then some t else none
  | none => none

mutual

/-- The value a tree stands for; `none` when a number is out of range or a string is no text. -/
def Tree.value? : Tree → Option Value
  | .null => some .null
  | .bool b => some (.bool b)
  | .number n => n.value?.map .num
  | .string s => s.map .str
  | .array items => (Tree.values? items).map .list
  | .object fields => (Tree.fields? fields).map Value.ofFields

def Tree.values? : List Tree → Option (List Value)
  | [] => some []
  | t :: rest =>
    match t.value?, Tree.values? rest with
    | some v, some vs => some (v :: vs)
    | _, _ => none

def Tree.fields? : List (Option String × Tree) → Option (List (String × Value))
  | [] => some []
  | (key, t) :: rest =>
    match key, t.value?, Tree.fields? rest with
    | some k, some v, some vs => some ((k, v) :: vs)
    | _, _, _ => none

end

/-- How deep arrays and objects of a value may be nested. -/
def nestingLimit : Nat := 127

def read? (s : String) : Option Value := (Tree.read? nestingLimit s.toList).bind Tree.value?

end GanttChart.Json
