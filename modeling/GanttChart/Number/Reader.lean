import GanttChart.Number.Binary

/-! Reading a decimal number as the nearest double. A sign, digits with an optional point, and an
optional exponent; `inf`, `infinity` and `nan` in any case. No blanks and no digit separators. -/

namespace GanttChart.Number

def digitsValue (cs : List Char) : Nat :=
  cs.foldl (fun n c => 10 * n + (c.toNat - '0'.toNat)) 0

def splitDigits (cs : List Char) : List Char × List Char :=
  (cs.takeWhile Char.isDigit, cs.dropWhile Char.isDigit)

/-- Takes an optional sign off; `true` for a minus. -/
def splitSign : List Char → Bool × List Char
  | '-' :: cs => (true, cs)
  | '+' :: cs => (false, cs)
  | cs => (false, cs)

/-- The double nearest to `coefficient * 10 ^ power`. Powers far outside the range of doubles are
answered without computing them. -/
def nearestDecimal (negative : Bool) (coefficient : Nat) (power : Int) : Float :=
  let reach : Int := (Nat.toDigits 10 coefficient).length + power
  if coefficient = 0 ∨ reach < -330 then nearest negative 0 1
  else if 310 < reach then infinity negative
  else if 0 ≤ power then nearest negative (coefficient * tenTo power.toNat) 1
  else nearest negative coefficient (tenTo (-power).toNat)

/-- The exponent at the end of a number; no characters stand for zero. -/
def readExponent? : List Char → Option Int
  | [] => some 0
  | c :: cs =>
    if c = 'e' ∨ c = 'E' then
      let (negative, digits) := splitSign cs
      if digits.isEmpty || !digits.all Char.isDigit then none
      else
        let n : Int := digitsValue digits
        some (if negative then -n else n)
    else none

/-- A number without its sign. -/
def readMagnitude? (negative : Bool) (cs : List Char) : Option Float :=
  let (whole, rest) := splitDigits cs
  let (fraction, rest) :=
    match rest with
    | '.' :: more => splitDigits more
    | _ => ([], rest)
  if whole.isEmpty && fraction.isEmpty then none
  else
    (readExponent? rest).map fun e =>
      nearestDecimal negative (digitsValue (whole ++ fraction)) (e - fraction.length)

def read? (cs : List Char) : Option Float :=
  let (negative, rest) := splitSign cs
  let word := String.ofList (rest.map Char.toLower)
  if word = "nan" then some (0.0 / 0.0)
  else if word = "inf" ∨ word = "infinity" then some (infinity negative)
  else readMagnitude? negative rest

end GanttChart.Number
