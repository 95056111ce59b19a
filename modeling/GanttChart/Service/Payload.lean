import GanttChart.Text.Blank
import GanttChart.Text.Utf8

/-! Texts in addresses: base64 in the alphabet for addresses, without padding. Four symbols stand
for three octets; what is left over at the end may be two symbols for one octet or three for two,
and the bits of the last symbol that belong to no octet must be zero. -/

namespace GanttChart.Service.Payload

/-- The six bits that a symbol stands for. -/
def sextet? (octet : Nat) : Option Nat :=
  if 65 ≤ octet ∧ octet ≤ 90 then some (octet - 65)
  else if 97 ≤ octet ∧ octet ≤ 122 then some (octet - 71)
  else if 48 ≤ octet ∧ octet ≤ 57 then some (octet + 4)
  else if octet = 45 then some 62
  else if octet = 95 then some 63
  else none

inductive Fault where
  | invalidSymbol (octet offset : Nat)
  | invalidLastSymbol (octet offset : Nat)
  | invalidLength (length : Nat)
  | notText (cause : Text.Utf8.Fault)
  deriving DecidableEq

def Fault.message : Fault → String
  | invalidSymbol octet offset =>
    "Invalid symbol " ++ toString octet ++ ", offset " ++ toString offset ++ "."
  | invalidLastSymbol octet offset =>
    "Invalid last symbol " ++ toString octet ++ ", offset " ++ toString offset ++ "."
  | invalidLength length => "Invalid input length: " ++ toString length
  | notText cause => cause.message

/-- The octets that groups of six bits make up. -/
def pack : List Nat → List Nat
  | a :: b :: c :: d :: rest =>
    (a * 4 + b / 16) :: (b % 16 * 16 + c / 4) :: (c % 4 * 64 + d) :: pack rest
  | [a, b, c] => [a * 4 + b / 16, b % 16 * 16 + c / 4]
  | [a, b] => [a * 4 + b / 16]
  | _ => []

/-- The bits that are left over behind the octets. -/
def spare : List Nat → Nat
  | _ :: _ :: _ :: _ :: rest => spare rest
  | [_, _, c] => c % 4
  | [_, b] => b % 16
  | _ => 0

/-- The first octet that is no symbol and its offset; a symbol too many at the end is looked at
before all others. -/
def wrongSymbol? (octets : List Nat) : Option (Nat × Nat) :=
  let wrong := octets.zipIdx.filter fun (octet, _) => (sextet? octet).isNone
  let last := octets.length - 1
  if octets.length % 4 = 1 ∧ wrong.any (fun (_, offset) => offset = last) then wrong.getLast?
  else wrong.head?

def octets (symbols : List Nat) : Except Fault (List Nat) :=
  match wrongSymbol? symbols with
  | some (octet, offset) => .error (.invalidSymbol octet offset)
  | none =>
    let sextets := symbols.filterMap sextet?
    let length := symbols.length
    if length % 4 = 1 then .error (.invalidLength length)
    else if spare sextets ≠ 0 then
      .error (.invalidLastSymbol (symbols.getLast?.getD 0) (length - 1))
    else .ok (pack sextets)

/-- The text of a payload; equals signs at its end are passed over. -/
def decode (payload : String) : Except Fault String :=
  match octets (Text.Utf8.encode (Text.trimEndBy (· == '=') payload.toList)) with
  | .error fault => .error fault
  | .ok bytes =>
    match Text.Utf8.decode bytes with
    | .ok cs => .ok (String.ofList cs)
    | .error cause => .error (.notText cause)

end GanttChart.Service.Payload
