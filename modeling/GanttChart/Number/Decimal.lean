import GanttChart.Number.Binary

/-! The fewest decimal digits that read back as a double. The doubles next to a value bound an
interval of numbers that round to it; on the grids of one digit, two digits and so on the first
grid with a point in that interval gives the digits, and of two such points the nearer one. -/

namespace GanttChart.Number

/-- The number `coefficient * 10 ^ exponent`. -/
structure Decimal where
  coefficient : Nat
  exponent : Int
  deriving DecidableEq

/-- What numbers round to a value, as fractions over one denominator. -/
structure Interval where
  low : Nat
  value : Nat
  high : Nat
  den : Nat
  /-- Whether the ends themselves round to the value. -/
  closed : Bool

/-- The ends lie half way to the neighbouring doubles; below a power of two the neighbour is
nearer, and the ends belong to the interval exactly when the mantissa is even. -/
def Binary.interval (b : Binary) : Interval :=
  let below := if b.mantissa = twoTo 52 ∧ -1074 < b.exponent then 1 else 2
  let unit := b.exponent - 2
  let up := if 0 ≤ unit then twoTo unit.toNat else 1
  { low := (4 * b.mantissa - below) * up
    value := 4 * b.mantissa * up
    high := (4 * b.mantissa + 2) * up
    den := if 0 ≤ unit then 1 else twoTo (-unit).toNat
    closed := b.mantissa % 2 == 0 }

/-- The interval with `10 ^ p` as the unit. -/
def Interval.inTens (i : Interval) (p : Int) : Interval :=
  if 0 ≤ p then { i with den := i.den * tenTo p.toNat }
  else
    let up := tenTo (-p).toNat
    { i with low := i.low * up, value := i.value * up, high := i.high * up }

def Interval.contains (i : Interval) (n : Nat) : Bool :=
  if i.closed then i.low ≤ n * i.den && n * i.den ≤ i.high
  else i.low < n * i.den && n * i.den < i.high

/-- The whole number in the interval nearest to its value, among the two next to the value. -/
def Interval.whole? (i : Interval) (tieUp : Bool) : Option Nat :=
  let below := i.value / i.den
  let upper := below + 1
  match i.contains below, i.contains upper with
  | false, false => none
  | true, false => some below
  | false, true => some upper
  | true, true =>
    let twice := 2 * (i.value % i.den)
    if twice < i.den then some below
    else if twice > i.den then some upper
    else if tieUp then some upper else some (below + below % 2)

/-- How many digits stand before the point of `num / den`; zero or less when it is below one. -/
def wholeDigits (num den : Nat) : Int :=
  if den ≤ num then (Nat.toDigits 10 (num / den)).length
  else ((Nat.toDigits 10 (num * tenTo 350 / den)).length : Int) - 350

/-- Tries the grids of `p`, `p - 1` and so on, `tries` of them. -/
def Interval.search (i : Interval) (tieUp : Bool) (p : Int) : Nat → Decimal
  | 0 => let j := i.inTens p; ⟨j.value / j.den, p⟩
  | tries + 1 =>
    match (i.inTens p).whole? tieUp with
    | some n => ⟨n, p⟩
    | none => i.search tieUp (p - 1) tries

/-- Moves trailing zeros of the coefficient into the exponent, at most `tries` of them. -/
def Decimal.strip (d : Decimal) : Nat → Decimal
  | 0 => d
  | tries + 1 =>
    if d.coefficient ≠ 0 ∧ d.coefficient % 10 = 0 then
      Decimal.strip ⟨d.coefficient / 10, d.exponent + 1⟩ tries
    else d

/-- The fewest digits that read back as the magnitude of `b`; `tieUp` says which way a point half
way between two grid points goes, the even one otherwise. Seventeen digits always suffice. -/
def Binary.shortest (b : Binary) (tieUp : Bool) : Decimal :=
  let i := b.interval
  (i.search tieUp (wholeDigits i.value i.den - 1) 17).strip 17

structure Style where
  tieUp : Bool
  /-- Whether a number whose leading digit stands for this power of ten is written without an
  exponent. -/
  positional : Int → Bool
  /-- Whether whole numbers written without an exponent end in a point and a zero. -/
  pointKept : Bool

/-- Texts and drawings: never an exponent, and no point on whole numbers. -/
def Style.plain : Style := ⟨true, fun _ => true, false⟩

/-- Structured values: an exponent outside the powers -5 to 15, and always a sign of being a
fraction. -/
def Style.value : Style := ⟨false, fun e => -5 ≤ e && e ≤ 15, true⟩

def zeros (n : Nat) : List Char := List.replicate n '0'

/-- The digits of a decimal with the point where it belongs. -/
def Decimal.positional (d : Decimal) (pointKept : Bool) : List Char :=
  let digits := Nat.toDigits 10 d.coefficient
  if 0 ≤ d.exponent then
    digits ++ zeros d.exponent.toNat ++ (if pointKept then ['.', '0'] else [])
  else
    let before : Int := digits.length + d.exponent
    if 0 < before then digits.take before.toNat ++ '.' :: digits.drop before.toNat
    else '0' :: '.' :: (zeros (-before).toNat ++ digits)

/-- One digit before the point, the others after it, and a signed exponent. -/
def Decimal.scientific (d : Decimal) : List Char :=
  let digits := Nat.toDigits 10 d.coefficient
  let power : Int := (digits.length : Int) - 1 + d.exponent
  let mark := if power < 0 then ['e', '-'] else ['e', '+']
  digits.take 1 ++ (if digits.length = 1 then [] else '.' :: digits.drop 1)
    ++ mark ++ Nat.toDigits 10 power.natAbs

/-- The text of a finite number without its sign. -/
def Style.magnitude (style : Style) (b : Binary) : List Char :=
  if b.mantissa = 0 then (if style.pointKept then ['0', '.', '0'] else ['0'])
  else
    let d := b.shortest style.tieUp
    let power : Int := ((Nat.toDigits 10 d.coefficient).length : Int) - 1 + d.exponent
    if style.positional power then d.positional style.pointKept else d.scientific

def Style.text (style : Style) (x : Float) : String :=
  match Binary.ofFloat? x with
  | some b => String.ofList ((if b.negative then ['-'] else []) ++ style.magnitude b)
  | none =>
    if x.isNaN then "NaN" else if x < 0 then "-inf" else "inf"

/-- A double as texts and drawings show it. -/
def plainText (x : Float) : String := Style.plain.text x

/-- The nearest whole number to a double as a text, a half going to the even neighbour; the sign
is kept even when nothing else is left. -/
def wholeText (x : Float) : String :=
  match Binary.ofFloat? x with
  | some b =>
    let whole := nearestWhole b.ratio.1 b.ratio.2
    String.ofList ((if b.negative then ['-'] else []) ++ Nat.toDigits 10 whole)
  | none => plainText x

end GanttChart.Number
