import GanttChart.Number.Power

/-! Doubles as exact numbers. A finite double is a sign, a natural mantissa and a power of two;
all rounding in this library is done on that form in exact natural arithmetic, so nothing here
depends on how the machine rounds. -/

namespace GanttChart.Number

/-- The number `mantissa * 2 ^ exponent`, negated when `negative` holds. -/
structure Binary where
  negative : Bool
  mantissa : Nat
  exponent : Int
  deriving DecidableEq

/-- Reads the 64 bits of a double; `none` for the infinities and the values that are no number. -/
def Binary.ofBits? (bits : Nat) : Option Binary :=
  let fraction : Nat := bits % twoTo 52
  let field : Nat := bits / twoTo 52 % twoTo 11
  let negative := decide (twoTo 63 ≤ bits)
  if field = 2047 then none
  else if field = 0 then some ⟨negative, fraction, -1074⟩
  else some ⟨negative, fraction + twoTo 52, (field : Int) - 1075⟩

def Binary.ofFloat? (x : Float) : Option Binary := Binary.ofBits? x.toBits.toNat

/-- The magnitude as a fraction with positive denominator. -/
def Binary.ratio (b : Binary) : Nat × Nat :=
  if 0 ≤ b.exponent then (b.mantissa * twoTo b.exponent.toNat, 1)
  else (b.mantissa, twoTo (-b.exponent).toNat)

/-- The least whole number not below the magnitude. -/
def Binary.ceil (b : Binary) : Nat :=
  let (num, den) := b.ratio
  (num + (den - 1)) / den

/-- The whole number nearest to `num / den`; a half goes to the even neighbour. -/
def nearestWhole (num den : Nat) : Nat :=
  let whole := num / den
  let twice := 2 * (num % den)
  if twice < den then whole
  else if twice > den then whole + 1
  else whole + whole % 2

/-- The bits of the double nearest to `num / den`, for a positive numerator; a half goes to the
even mantissa, and what is too large becomes the infinity. -/
def nearestBits (num den : Nat) : Nat :=
  let guess : Int := (num.log2 : Int) - den.log2
  let reached :=
    if 0 ≤ guess then den * twoTo guess.toNat ≤ num else den ≤ num * twoTo (-guess).toNat
  let exponent := max (-1074) (if reached then guess - 52 else guess - 53)
  let mantissa :=
    if 0 ≤ exponent then nearestWhole num (den * twoTo exponent.toNat)
    else nearestWhole (num * twoTo (-exponent).toNat) den
  min ((exponent + 1074).toNat * twoTo 52 + mantissa) (2047 * twoTo 52)

/-- The double with the given sign nearest to `num / den`. -/
def nearest (negative : Bool) (num den : Nat) : Float :=
  let bits := if num = 0 then 0 else nearestBits num den
  Float.ofBits (UInt64.ofNat (if negative then bits + twoTo 63 else bits))

/-- The infinity of a sign, which is what numbers too large for a double become. -/
def infinity (negative : Bool) : Float := nearest negative (twoTo 1024) 1

def ofInt (n : Int) : Float := nearest (n < 0) n.natAbs 1

def isFinite (x : Float) : Bool := (Binary.ofFloat? x).isSome

theorem Binary.ratio_den_pos (b : Binary) : 0 < b.ratio.2 := by
  unfold Binary.ratio
  split
  · exact Nat.one_pos
  · exact twoTo_pos _

/-- The ceiling is at least the magnitude. -/
theorem Binary.ratio_le_ceil (b : Binary) : b.ratio.1 ≤ b.ceil * b.ratio.2 := by
  have hd := b.ratio_den_pos
  have h := Nat.div_add_mod (b.ratio.1 + (b.ratio.2 - 1)) b.ratio.2
  have hm := Nat.mod_lt (b.ratio.1 + (b.ratio.2 - 1)) hd
  unfold Binary.ceil
  simp only
  rw [Nat.mul_comm]
  omega

/-- Nothing below the ceiling reaches the magnitude. -/
theorem Binary.ceil_le {b : Binary} {n : Nat} (h : b.ratio.1 ≤ n * b.ratio.2) : b.ceil ≤ n := by
  have hd := b.ratio_den_pos
  unfold Binary.ceil
  simp only
  have : b.ratio.1 + (b.ratio.2 - 1) < (n + 1) * b.ratio.2 := by
    rw [Nat.add_mul, Nat.one_mul]; omega
  exact Nat.lt_succ_iff.mp ((Nat.div_lt_iff_lt_mul hd).mpr this)

end GanttChart.Number
