/-! UTF-8. Octets are natural numbers below 256. A character takes one to four octets; the first
says how many follow and bounds the second, so that every character has one encoding only. -/

namespace GanttChart.Text.Utf8

def encodeChar (c : Char) : List Nat :=
  let n := c.toNat
  if n < 0x80 then [n]
  else if n < 0x800 then [0xC0 + n / 0x40, 0x80 + n % 0x40]
  else if n < 0x10000 then [0xE0 + n / 0x1000, 0x80 + n / 0x40 % 0x40, 0x80 + n % 0x40]
  else
    [0xF0 + n / 0x40000, 0x80 + n / 0x1000 % 0x40, 0x80 + n / 0x40 % 0x40, 0x80 + n % 0x40]

def encode (cs : List Char) : List Nat := cs.flatMap encodeChar

/-- What the first octet of a character says. -/
structure Lead where
  /-- The bits of the character in the octet. -/
  bits : Nat
  /-- How many octets follow. -/
  more : Nat
  /-- The bounds of the octet that follows. -/
  low : Nat
  high : Nat

def lead? (n : Nat) : Option Lead :=
  if n < 0x80 then some ⟨n, 0, 0, 0⟩
  else if n < 0xC2 then none
  else if n < 0xE0 then some ⟨n - 0xC0, 1, 0x80, 0xBF⟩
  else if n = 0xE0 then some ⟨0, 2, 0xA0, 0xBF⟩
  else if n = 0xED then some ⟨0xD, 2, 0x80, 0x9F⟩
  else if n < 0xF0 then some ⟨n - 0xE0, 2, 0x80, 0xBF⟩
  else if n = 0xF0 then some ⟨0, 3, 0x90, 0xBF⟩
  else if n < 0xF4 then some ⟨n - 0xF0, 3, 0x80, 0xBF⟩
  else if n = 0xF4 then some ⟨4, 3, 0x80, 0x8F⟩
  else none

/-- Why octets are no character: so many of them are wrong, or they end too early. -/
inductive Flaw where
  | wrong (length : Nat)
  | short
  deriving DecidableEq

/-- Reads the octets that follow the first one, `read` octets being behind already. -/
def follow (low high : Nat) : Nat → Nat → Nat → List Nat → Except Flaw (Nat × List Nat)
  | 0, bits, _, rest => .ok (bits, rest)
  | _ + 1, _, _, [] => .error .short
  | more + 1, bits, read, n :: rest =>
    if low ≤ n ∧ n ≤ high then follow 0x80 0xBF more (bits * 0x40 + n % 0x40) (read + 1) rest
    else .error (.wrong read)

/-- Reads the character that starts with the octet `n`. -/
def next (n : Nat) (rest : List Nat) : Except Flaw (Char × List Nat) :=
  match lead? n with
  | none => .error (.wrong 1)
  | some l =>
    (follow l.low l.high l.more l.bits 1 rest).map fun (bits, rest) => (Char.ofNat bits, rest)

/-- A flaw and the number of octets before it. -/
structure Fault where
  index : Nat
  flaw : Flaw
  deriving DecidableEq

def Fault.message (f : Fault) : String :=
  match f.flaw with
  | .wrong length =>
    "invalid utf-8 sequence of " ++ toString length ++ " bytes from index " ++ toString f.index
  | .short => "incomplete utf-8 byte sequence from index " ++ toString f.index

/-- Reads octets on, `index` of them being behind; a character takes one of them at least. -/
def decodeFrom (index : Nat) : Nat → List Nat → Except Fault (List Char)
  | _, [] => .ok []
  | 0, _ => .ok []
  | tries + 1, n :: rest =>
    match next n rest with
    | .error flaw => .error ⟨index, flaw⟩
    | .ok (c, left) =>
      (decodeFrom (index + (rest.length + 1 - left.length)) tries left).map (c :: ·)

def decode (octets : List Nat) : Except Fault (List Char) := decodeFrom 0 octets.length octets

/-- Reads octets with the replacement character in the place of every flaw. -/
def decodeLossy : Nat → List Nat → List Char
  | _, [] => []
  | 0, _ => []
  | tries + 1, n :: rest =>
    match next n rest with
    | .ok (c, left) => c :: decodeLossy tries left
    | .error (.wrong length) => '\ufffd' :: decodeLossy tries (rest.drop (length - 1))
    | .error .short => ['\ufffd']

def lossy (octets : List Nat) : List Char := decodeLossy octets.length octets

theorem encodeChar_ne_nil (c : Char) : encodeChar c ≠ [] := by
  simp only [encodeChar]
  split
  · simp
  · split
    · simp
    · split <;> simp

end GanttChart.Text.Utf8
