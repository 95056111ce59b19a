import GanttChart.Day.Civil
import GanttChart.Number.Reader
import GanttChart.Text.Blank

/-! Dates as text. Read as year, month and day between slashes, with or without leading zeros, and
written with four digits for the year and two for month and day. A year outside 0 to 9999 carries
a sign; one without a sign is read with at most four digits. -/

namespace GanttChart.Day

/-- The leading digits, `most` of them at most, as a number; there must be one. -/
def readDigits? (most : Nat) (cs : List Char) : Option (Nat × List Char) :=
  let digits := (cs.takeWhile Char.isDigit).take most
  if digits.isEmpty then none else some (Number.digitsValue digits, cs.drop digits.length)

/-- A year, with any blanks in front of it. -/
def readYear? (cs : List Char) : Option (Int × List Char) :=
  match Text.trimStart cs with
  | '-' :: rest => (readDigits? rest.length rest).map fun (n, more) => (-(n : Int), more)
  | '+' :: rest => (readDigits? rest.length rest).map fun (n, more) => ((n : Int), more)
  | rest => (readDigits? 4 rest).map fun (n, more) => ((n : Int), more)

/-- A slash and a number of one or two digits, which may have blanks in front of it. -/
def readPart? : List Char → Option (Nat × List Char)
  | '/' :: rest => readDigits? 2 (Text.trimStart rest)
  | _ => none

def readChars? (cs : List Char) : Option Day := do
  let (year, rest) ← readYear? cs
  let (month, rest) ← readPart? rest
  let (day, rest) ← readPart? rest
  if rest.isEmpty then ofDate? year month day else none

/-- Reads a date; blanks around it do not matter. -/
def read? (s : String) : Option Day := readChars? (Text.trim s.toList)

/-- The digits of `n`, with zeros in front to make at least `width` of them. -/
def padded (width n : Nat) : List Char :=
  let digits := Nat.toDigits 10 n
  List.replicate (width - digits.length) '0' ++ digits

def yearText (year : Int) : List Char :=
  if 0 ≤ year ∧ year ≤ 9999 then padded 4 year.toNat
  else (if year < 0 then '-' else '+') :: padded 4 year.natAbs

/-- Year, month and day with `mark` between them. -/
def textWith (mark : Char) (d : Day) : String :=
  let c := d.civil
  String.ofList (yearText c.year ++ mark :: padded 2 c.month ++ mark :: padded 2 c.day)

/-- The date as schedules write it. -/
def text (d : Day) : String := textWith '/' d

/-- The date as structured values show it. -/
def isoText (d : Day) : String := textWith '-' d

end GanttChart.Day
