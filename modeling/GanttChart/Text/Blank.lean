/-! Blank characters and trimming. Blank means the Unicode `White_Space` property, so the
ideographic space and the no-break space count as blanks and the zero width space does not.
Text is worked on as a list of characters; the `String` forms only wrap the list forms. -/

namespace GanttChart.Text

/-- Code point ranges of the `White_Space` property, both ends included. -/
def blankRanges : List (Nat × Nat) :=
  [(0x09, 0x0D), (0x20, 0x20), (0x85, 0x85), (0xA0, 0xA0), (0x1680, 0x1680), (0x2000, 0x200A),
   (0x2028, 0x2029), (0x202F, 0x202F), (0x205F, 0x205F), (0x3000, 0x3000)]

def isBlank (c : Char) : Bool := blankRanges.any fun r => r.1 ≤ c.toNat && c.toNat ≤ r.2

/-- Drops the leading characters that `p` accepts. -/
def trimStartBy (p : Char → Bool) (cs : List Char) : List Char := cs.dropWhile p

/-- Drops the trailing characters that `p` accepts. -/
def trimEndBy (p : Char → Bool) (cs : List Char) : List Char := (cs.reverse.dropWhile p).reverse

/-- Drops both the leading and the trailing characters that `p` accepts. -/
def trimBy (p : Char → Bool) (cs : List Char) : List Char := trimEndBy p (trimStartBy p cs)

def trim (cs : List Char) : List Char := trimBy isBlank cs

def trimStart (cs : List Char) : List Char := trimStartBy isBlank cs

/-- The text without leading and trailing blanks. -/
def trimmed (s : String) : String := String.ofList (trim s.toList)

def isBlankText (s : String) : Bool := s.toList.all isBlank

/-- ASCII capitals become small letters; every other character is kept. -/
def lowerAscii (s : String) : String := String.ofList (s.toList.map Char.toLower)

theorem trimStartBy_cons_of_neg {p : Char → Bool} {c : Char} {cs : List Char} (h : p c = false) :
    trimStartBy p (c :: cs) = c :: cs := by simp [trimStartBy, h]

/-- Trimming a second time changes nothing at the front. -/
theorem trimStartBy_idem (p : Char → Bool) (cs : List Char) :
    trimStartBy p (trimStartBy p cs) = trimStartBy p cs := by
  induction cs with
  | nil => rfl
  | cons c cs ih =>
    cases h : p c with
    | true => simpa [trimStartBy, h] using ih
    | false => simp [trimStartBy, h]

/-- Trimming a second time changes nothing at the back. -/
theorem trimEndBy_idem (p : Char → Bool) (cs : List Char) :
    trimEndBy p (trimEndBy p cs) = trimEndBy p cs := by
  have h := trimStartBy_idem p cs.reverse
  simp only [trimStartBy] at h
  simp [trimEndBy, h]

end GanttChart.Text
