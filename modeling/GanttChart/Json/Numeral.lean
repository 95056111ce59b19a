import GanttChart.Number.Reader
import GanttChart.Value

/-! Numbers in JSON text. The digits are gathered into a significand of 64 bits for as long as
they fit; the rest only shifts the power of ten. The significand becomes a double and is then
multiplied or divided once by that power, so a long number may end one step away from the nearest
double. -/

namespace GanttChart.Json

structure Numeral where
  negative : Bool
  whole : List Char
  fraction : List Char
  /-- Whether a point or an exponent was written, which makes the number a double. -/
  marked : Bool
  exponentNegative : Bool
  exponent : List Char

/-- Gathers digits into `n` while the result stays below `2 ^ 64`, and gives back the others. -/
def gather (n : Nat) : List Char → Nat × List Char
  | [] => (n, [])
  | c :: cs =>
    let next := 10 * n + (c.toNat - '0'.toNat)
    if next < Number.twoTo 64 then gather next cs else (n, c :: cs)

/-- Shifts a double by a power of ten; `none` when it grows beyond the finite doubles. A power
below the smallest double is taken in several steps. -/
def shiftTens (x : Float) (power : Int) : Option Float :=
  if power.natAbs ≤ 308 then
    let tens := Number.nearest false (Number.tenTo power.natAbs) 1
    if 0 ≤ power then
      let y := x * tens
      if Number.isFinite y then some y else none
    else some (x / tens)
  else if x == 0 then some x
  else if 0 ≤ power then none
  else shiftTens (x / Number.nearest false (Number.tenTo 308) 1) (power + 308)
termination_by (-power).toNat
decreasing_by omega

/-- The largest exponent that is taken as it stands. -/
def exponentLimit : Nat := Number.twoTo 31 - 1

/-- The value of a number; `none` when it is out of range. -/
def Numeral.value? (n : Numeral) : Option Num :=
  let (significand, left) := gather 0 n.whole
  if !n.marked && left.isEmpty then
    if !n.negative then some (.whole significand)
    else if significand = 0 then some (.real (Number.nearest true 0 1))
    else if significand ≤ Number.twoTo 63 then some (.whole (-(significand : Int)))
    else some (.real (Number.ofInt (-(significand : Int))))
  else
    let (coefficient, unread) := gather significand n.fraction
    let power : Int := (left.length : Int) - ((n.fraction.length : Int) - unread.length)
    let exponent := Number.digitsValue n.exponent
    if exponentLimit < exponent then
      if coefficient ≠ 0 ∧ !n.exponentNegative then none
      else some (.real (Number.nearest n.negative 0 1))
    else
      let power := if n.exponentNegative then power - exponent else power + exponent
      (shiftTens (Number.ofInt coefficient) power).map fun x =>
        .real (if n.negative then -x else x)

/-- Digits that may not start with a zero unless it stands alone. -/
def readWhole? (cs : List Char) : Option (List Char × List Char) :=
  match Number.splitDigits cs with
  | ([], _) => none
  | ('0' :: _ :: _, _) => none
  | (digits, rest) => some (digits, rest)

def readDigits? (cs : List Char) : Option (List Char × List Char) :=
  match Number.splitDigits cs with
  | ([], _) => none
  | (digits, rest) => some (digits, rest)

/-- A point and the digits after it, if there is a point. -/
def readFraction? : List Char → Option (List Char × List Char)
  | '.' :: rest => readDigits? rest
  | rest => some ([], rest)

/-- The sign and digits of an exponent, if there is one. -/
def readExponent? : List Char → Option ((Bool × List Char) × List Char)
  | [] => some ((false, []), [])
  | c :: rest =>
    if c = 'e' ∨ c = 'E' then
      let (negative, digits) := Number.splitSign rest
      (readDigits? digits).map fun (ds, more) => ((negative, ds), more)
    else some ((false, []), c :: rest)

/-- Reads a number and gives back what follows it. -/
def readNumeral? (cs : List Char) : Option (Numeral × List Char) := do
  let (negative, rest) := match cs with
    | '-' :: more => (true, more)
    | more => (false, more)
  let (whole, rest) ← readWhole? rest
  let (fraction, rest) ← readFraction? rest
  let ((exponentNegative, exponent), rest) ← readExponent? rest
  some (⟨negative, whole, fraction, !fraction.isEmpty || !exponent.isEmpty, exponentNegative,
    exponent⟩, rest)

end GanttChart.Json
