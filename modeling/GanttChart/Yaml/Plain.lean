import GanttChart.Number.Hexadecimal
import GanttChart.Number.Reader
import GanttChart.Value

/-! What plain scalars stand for. A word for null or a truth value, a whole number, or any other
number; everything else is text. Whole numbers may be written with a base, and digits behind a zero
are text. -/

namespace GanttChart.Yaml.Plain

def isNull (s : String) : Bool := ["null", "Null", "NULL", "~"].contains s

def bool? (s : String) : Option Bool :=
  if ["true", "True", "TRUE"].contains s then some true
  else if ["false", "False", "FALSE"].contains s then some false
  else none

/-- Whether a text is digits behind a zero, with a sign or without. -/
def isPadded (cs : List Char) : Bool :=
  match (Number.splitSign cs).2 with
  | '0' :: c :: rest => (c :: rest).all Char.isDigit
  | _ => false

/-- The number written by digits of a base, of which there must be one. -/
def digits? (base : Nat) (cs : List Char) : Option Nat :=
  if cs.isEmpty then none
  else
    cs.foldlM
      (fun n c => (Number.hexDigit? c).bind fun d => if d < base then some (base * n + d) else none)
      0

/-- A number without its sign: digits of the base that its first characters name. -/
def magnitude? : List Char → Option Nat
  | '0' :: 'x' :: cs => digits? 16 cs
  | '0' :: 'o' :: cs => digits? 8 cs
  | '0' :: 'b' :: cs => digits? 2 cs
  | cs => digits? 10 cs

/-- The whole number a text stands for. One that takes more than 128 bits is none. -/
def whole? (s : String) : Option Int :=
  let (negative, cs) := Number.splitSign s.toList
  if isPadded s.toList then none
  else
    match magnitude? cs with
    | some n =>
      if negative then (if n ≤ Number.twoTo 127 then some (-(n : Int)) else none)
      else if n < Number.twoTo 128 then some n
      else none
    | none => none

/-- A whole number as a value; those of more than 64 bits are refused. -/
def wholeValue? (n : Int) : Option Value :=
  if -(Number.twoTo 63 : Int) ≤ n ∧ n < Number.twoTo 64 then some (.ofInt n) else none

/-- The double a text stands for; the infinities and what is no number are marked by a point. -/
def float? (s : String) : Option Float :=
  if [".inf", ".Inf", ".INF", "+.inf", "+.Inf", "+.INF"].contains s then
    some (Number.infinity false)
  else if ["-.inf", "-.Inf", "-.INF"].contains s then some (Number.infinity true)
  else if [".nan", ".NaN", ".NAN"].contains s then some (0.0 / 0.0)
  else
    match Number.read? s.toList with
    | some x => if Number.isFinite x then some x else none
    | none => none

/-- The value of a plain scalar; none when it is a whole number too large for a value. -/
def value? (s : String) : Option Value :=
  if s.isEmpty || isNull s then some .null
  else
    match bool? s with
    | some b => some (.bool b)
    | none =>
      match whole? s with
      | some n => wholeValue? n
      | none =>
        if isPadded s.toList then some (.str s)
        else
          match float? s with
          | some x => some (.ofFloat x)
          | none => some (.str s)

end GanttChart.Yaml.Plain
