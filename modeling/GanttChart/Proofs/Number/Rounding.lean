import GanttChart.Proofs.Number.Quotients

/-! # Rounding to the nearest double

The value of a finite double is a multiple of the least positive one. What a number is rounded to
lies within half of a unit in the last place: for a number that is itself such a multiple, that is
within a share of two to the power of 53 of it, and there is nothing to round near zero. -/

namespace GanttChart.Number

open Float.Model (UnpackedFloat Format totalExponent)
open Float.Model.UnpackedFloat (Sign Accuracy ExtendedMantissa)

/-! ## Half a unit -/

/-- A mantissa with its two further bits stands for a number: one bit tells the half, the other
whether there is anything besides. -/
structure Represents (em : ExtendedMantissa) (q : ℚ) : Prop where
  le : em.mantissa ≤ q
  lt : q < em.mantissa + 1
  roundBit : em.roundBit = true ↔ em.mantissa + 1 / 2 ≤ q
  stickyBit : em.stickyBit = true ↔ q ≠ em.mantissa ∧ q ≠ em.mantissa + 1 / 2

theorem represents_exact (m : ℕ) : Represents (.ofMantissaAndAccuracy m .exact) m where
  le := le_refl _
  lt := lt_add_one _
  roundBit := by
    show false = true ↔ _
    simp only [Bool.false_eq_true, false_iff, not_le]
    exact lt_add_of_pos_right _ one_half_pos
  stickyBit := by
    show false = true ↔ _
    simp [ExtendedMantissa.ofMantissaAndAccuracy]

theorem represents_fraction (m : ℕ) {num den : ℕ} (h : num < den) :
    Represents (.ofMantissaAndAccuracy m (UnpackedFloat.accuracyOfFraction num den))
      (m + num / den) := by
  have hden : (0 : ℚ) < den := by exact_mod_cast Nat.zero_lt_of_lt h
  unfold UnpackedFloat.accuracyOfFraction
  split
  · rename_i hzero
    rw [hzero, Nat.cast_zero, zero_div, add_zero]
    exact represents_exact m
  · rename_i hnonzero
    have hpos : (0 : ℚ) < num / den :=
      div_pos (by exact_mod_cast Nat.pos_of_ne_zero hnonzero) hden
    have hone : (num : ℚ) / den < 1 := (div_lt_one hden).mpr (by exact_mod_cast h)
    rcases Nat.lt_trichotomy (2 * num) den with hhalf | hhalf | hhalf
    · rw [compare_lt_iff_lt.mpr hhalf]
      have hless : (num : ℚ) / den < 1 / 2 := by
        rw [div_lt_div_iff₀ hden two_pos]
        exact_mod_cast (by omega : num * 2 < 1 * den)
      constructor <;> simp [ExtendedMantissa.ofMantissaAndAccuracy] <;> grind
    · rw [compare_eq_iff_eq.mpr hhalf]
      have hsame : (num : ℚ) / den = 1 / 2 := by
        rw [div_eq_div_iff hden.ne' two_ne_zero]
        exact_mod_cast (by omega : num * 2 = 1 * den)
      rw [hsame]
      constructor <;> norm_num [ExtendedMantissa.ofMantissaAndAccuracy]
    · rw [compare_gt_iff_gt.mpr hhalf]
      have hmore : 1 / 2 < (num : ℚ) / den := by
        rw [div_lt_div_iff₀ two_pos hden]
        exact_mod_cast (by omega : 1 * den < num * 2)
      constructor <;> simp [ExtendedMantissa.ofMantissaAndAccuracy] <;> grind

namespace Represents

variable {em : ExtendedMantissa} {q : ℚ}

/-- The bit that is cut off becomes the first further one. -/
theorem shiftRightOne (h : Represents em q) : Represents em.shiftRightOne (q / 2) := by
  obtain ⟨m, roundBit, stickyBit⟩ := em
  obtain ⟨hle, hlt, hround, hsticky⟩ := h
  have hsplit : (m : ℚ) = 2 * (m / 2 : ℕ) + (m % 2 : ℕ) := by
    exact_mod_cast (Nat.div_add_mod m 2).symm
  have hrest : (roundBit || stickyBit) = true ↔ q ≠ m := by
    rw [Bool.or_eq_true, hround, hsticky]
    grind
  simp only at hle hlt
  rcases Nat.mod_two_eq_zero_or_one m with hbit | hbit
  · rw [hbit, Nat.cast_zero, add_zero] at hsplit
    constructor <;> simp only [ExtendedMantissa.shiftRightOne, hbit, hrest] <;> grind
  · rw [hbit, Nat.cast_one] at hsplit
    constructor <;> simp only [ExtendedMantissa.shiftRightOne, hbit, hrest] <;> grind

theorem shiftRight (h : Represents em q) (k : ℕ) : Represents (em >>> k) (q / 2 ^ k) := by
  induction k with
  | zero => rwa [pow_zero, div_one]
  | succ k ih =>
    have hnext := ih.shiftRightOne
    rwa [div_div, ← pow_succ] at hnext

/-- Rounding moves a number by less than half a unit, or by half a unit to an even mantissa. -/
theorem abs_rounded_sub (h : Represents em q) :
    |(em.roundedMantissa : ℚ) - q| < 1 / 2 ∨
      |(em.roundedMantissa : ℚ) - q| = 1 / 2 ∧ Even em.roundedMantissa := by
  obtain ⟨m, roundBit, stickyBit⟩ := em
  obtain ⟨hle, hlt, hround, hsticky⟩ := h
  simp only at hle hlt hround hsticky
  cases roundBit <;> cases stickyBit <;>
    simp only [Bool.false_eq_true, false_iff, true_iff, not_le, not_and_or, not_not]
      at hround hsticky
  · have hsame : q = m := hsticky.resolve_right hround.ne
    show |(m : ℚ) - q| < 1 / 2 ∨ _
    rw [hsame, sub_self, abs_zero]
    exact .inl one_half_pos
  · show |(m : ℚ) - q| < 1 / 2 ∨ _
    exact .inl (abs_lt.mpr ⟨by linarith, by linarith⟩)
  · have hhalf : q = m + 1 / 2 := hsticky.resolve_left (by linarith)
    show |((m + m % 2 : ℕ) : ℚ) - q| < 1 / 2 ∨
      |((m + m % 2 : ℕ) : ℚ) - q| = 1 / 2 ∧ Even (m + m % 2)
    refine .inr ⟨?_, Nat.even_iff.mpr (by omega)⟩
    rw [hhalf, Nat.cast_add, add_sub_add_left_eq_sub]
    rcases Nat.mod_two_eq_zero_or_one m with hbit | hbit <;> rw [hbit] <;> norm_num
  · show |((m + 1 : ℕ) : ℚ) - q| < 1 / 2 ∨ _
    rw [Nat.cast_add, Nat.cast_one]
    have hmore : (m : ℚ) + 1 / 2 < q := lt_of_le_of_ne hround (Ne.symm hsticky.2)
    exact .inl (abs_lt.mpr ⟨by linarith, by linarith⟩)

end Represents

/-! ## Rounded numbers -/

/-- A mantissa has no more than 53 bits, and all of them unless the exponent is the least one. -/
def Canonical (m : ℕ) (e : ℤ) : Prop :=
  m < twoTo 53 ∧ -1074 ≤ e ∧ (twoTo 52 ≤ m ∨ e = -1074)

/-- A carry is shifted out again, and nothing is lost by that. -/
theorem exists_carry {r : ℕ} {t : ℤ} (hr : r ≤ twoTo 53) (ht : -1074 ≤ t)
    (hfull : twoTo 52 ≤ r ∨ t = -1074) :
    ∃ j : ℕ, max ((r.log2 : ℤ) + 1 + t - 53) (-1074) = t + j ∧ r / twoTo j * twoTo j = r ∧
      Canonical (r / twoTo j) (t + j) := by
  rcases hr.lt_or_eq with hlt | rfl
  · refine ⟨0, ?_, by rw [show twoTo 0 = 1 from rfl]; omega, ?_⟩
    · have hlog : r = 0 ∨ r.log2 ≤ 52 :=
        (Nat.eq_zero_or_pos r).imp_right fun h => Nat.le_of_lt_succ ((Nat.log2_lt h.ne').mpr hlt)
      have hlow : twoTo 52 ≤ r → 52 ≤ r.log2 := fun h =>
        (Nat.le_log2 (by have := twoTo_pos 52; omega)).mpr h
      rcases hlog with rfl | hlog
      · have : ¬ twoTo 52 ≤ 0 := by decide
        simp
        omega
      · omega
    · rw [show twoTo 0 = 1 from rfl, Nat.div_one, Nat.cast_zero, add_zero]
      exact ⟨hlt, ht, hfull⟩
  · refine ⟨1, ?_, rfl, by decide, by omega, .inl (by decide)⟩
    show max ((53 : ℤ) + 1 + t - 53) (-1074) = t + 1
    omega

/-- The number with the sign. -/
def signed (sign : Sign) (q : ℚ) : ℚ := if sign == .negative then -q else q

/-- What an unpacked double stands for; none for the infinities and for what is no number. -/
def unpackedValue? : UnpackedFloat → Option ℚ
  | .infinity _ => none
  | .notANumber => none
  | .zero _ => some 0
  | .finite sign mantissa exponent _ => some (signed sign (mantissa * (2 : ℚ) ^ exponent))

/-- An unpacked double is in the form that a double is unpacked to. -/
def Normal : UnpackedFloat → Prop
  | .finite _ mantissa exponent _ => Canonical mantissa exponent
  | _ => True

/-- The number is rounded to a multiple of a unit that is not too large for it. -/
def Rounds (q v : ℚ) : Prop :=
  ∃ (r t : ℤ), v = r * (2 : ℚ) ^ t ∧ -1074 ≤ t ∧
    (|v - q| < 2 ^ t / 2 ∨ |v - q| = 2 ^ t / 2 ∧ Even r) ∧
    (t = -1074 ∨ 2 ^ 52 * (2 : ℚ) ^ t ≤ |q|)

theorem Rounds.neg {q v : ℚ} (h : Rounds q v) : Rounds (-q) (-v) := by
  obtain ⟨r, t, rfl, ht, hnear, hlarge⟩ := h
  refine ⟨-r, t, by push_cast; ring, ht, ?_, by rwa [abs_neg]⟩
  rwa [neg_sub_neg, abs_sub_comm, even_neg]

theorem Rounds.signed {q v : ℚ} (h : Rounds q v) (sign : Sign) :
    Rounds (signed sign q) (signed sign v) := by
  cases sign with
  | negative => exact h.neg
  | positive => exact h

/-- An unpacked number is in the form of a double and has what a number is rounded to as its value,
whether or not that fits into a double. -/
def RoundsTo (u : UnpackedFloat) (q : ℚ) : Prop :=
  Normal u ∧ ∃ v, unpackedValue? u = some v ∧ Rounds q v

theorem RoundsTo.rounds {u : UnpackedFloat} {q v : ℚ} (h : RoundsTo u q)
    (hv : unpackedValue? u = some v) : Rounds q v := by
  obtain ⟨_, v', hv', hround⟩ := h
  cases hv.symm.trans hv'
  exact hround

/-- Where the shift ends, the mantissa has no more than 53 bits, and all of them unless the exponent
is the least one. -/
theorem shifted_bounds {m k : ℕ} {e : ℤ} (hk : max ((m.log2 : ℤ) + 1 + e - 53) (-1074) = e + k) :
    m / twoTo k < twoTo 53 ∧ (m.log2 = 52 + k ∨ e + k = -1074) := by
  refine ⟨?_, by omega⟩
  rw [Nat.div_lt_iff_lt_mul (twoTo_pos k), ← twoTo_add]
  calc m < twoTo (m.log2 + 1) := Nat.lt_log2_self
    _ ≤ twoTo (53 + k) := Nat.pow_le_pow_right two_pos (by omega)

/-- What a mantissa stands for is rounded where the shift ends. -/
theorem rounds_shifted {m k : ℕ} {e : ℤ} {a : Accuracy} {q : ℚ}
    (hq : Represents (.ofMantissaAndAccuracy m a) q)
    (hk : max ((m.log2 : ℤ) + 1 + e - 53) (-1074) = e + k) :
    Rounds (q * (2 : ℚ) ^ e)
      ((ExtendedMantissa.ofMantissaAndAccuracy m a >>> k).roundedMantissa * (2 : ℚ) ^ (e + k)) := by
  have hnear := (hq.shiftRight k).abs_rounded_sub
  generalize (ExtendedMantissa.ofMantissaAndAccuracy m a >>> k).roundedMantissa = r at hnear ⊢
  have hscale : (0 : ℚ) < 2 ^ (e + k) := zpow_pos two_pos _
  have hshift : (r : ℚ) * 2 ^ (e + k) - q * 2 ^ e = (r - q / 2 ^ k) * 2 ^ (e + k) := by
    rw [zpow_add₀ two_ne_zero, zpow_natCast]
    field_simp
  refine ⟨r, e + k, rfl, by omega, ?_, (shifted_bounds hk).2.symm.imp_right fun hlog => ?_⟩
  · rw [hshift, abs_mul, abs_of_pos hscale, Int.even_coe_nat]
    refine hnear.imp (fun h => ?_) (And.imp_left fun h => ?_)
    · linarith [mul_lt_mul_of_pos_right h hscale]
    · rw [h]
      ring
  · have hfull : twoTo (52 + k) ≤ m := by
      rw [← hlog]
      exact Nat.log2_self_le (by rintro rfl; cases k <;> cases hlog)
    have hm : (2 : ℚ) ^ 52 * 2 ^ k ≤ m := by
      rw [← pow_add]
      exact_mod_cast hfull
    have hle := hq.le
    rw [mantissa_ofMantissaAndAccuracy] at hle
    refine le_trans ?_ (le_abs_self _)
    calc (2 : ℚ) ^ 52 * 2 ^ (e + k) = 2 ^ 52 * 2 ^ k * 2 ^ e := by
          rw [add_comm e, zpow_add₀ two_ne_zero, zpow_natCast, mul_assoc]
      _ ≤ q * 2 ^ e := mul_le_mul_of_nonneg_right (hm.trans hle) (by positivity)

/-- Rounding a mantissa with its rest, which is not shifted too far already. -/
theorem roundsTo_roundWithAccuracy (sign : Sign) {m k : ℕ} {e : ℤ} {a : Accuracy} {q : ℚ}
    (hq : Represents (.ofMantissaAndAccuracy m a) q)
    (hk : max ((m.log2 : ℤ) + 1 + e - 53) (-1074) = e + k) :
    RoundsTo (UnpackedFloat.roundWithAccuracy .binary64 sign m e a)
      (signed sign (q * (2 : ℚ) ^ e)) := by
  obtain ⟨hbits, hfull⟩ := shifted_bounds hk
  have hbounds := roundedMantissa_bounds m k a
  have hround := rounds_shifted hq hk
  generalize hr : (ExtendedMantissa.ofMantissaAndAccuracy m a >>> k).roundedMantissa = r
    at hbounds hround
  have hleast : twoTo 52 ≤ r ∨ e + k = -1074 :=
    hfull.imp_left fun hlog => (div_twoTo_bounds hlog).1.trans hbounds.1
  obtain ⟨j, hj, hcarry, hcanonical⟩ := exists_carry (by omega) (by omega) hleast
  have hmantissa : (ExtendedMantissa.ofMantissaAndAccuracy r .exact >>> j).mantissa =
      r / twoTo j := by
    rw [mantissa_shiftRight, mantissa_ofMantissaAndAccuracy]
  have hvalue : (r : ℚ) * 2 ^ (e + k) = (r / twoTo j : ℕ) * 2 ^ (e + k + j) := by
    have hcast : ((r / twoTo j : ℕ) : ℚ) * 2 ^ j = r := by exact_mod_cast hcarry
    rw [zpow_add₀ two_ne_zero (e + k), zpow_natCast, ← hcast]
    ring
  unfold UnpackedFloat.roundWithAccuracy
  rw [shiftToTargetExponent_of_eq a hk]
  dsimp only
  rw [hr, shiftToTargetExponent_of_eq .exact hj]
  dsimp only
  rw [hvalue] at hround
  split
  · rename_i hzero
    rw [hmantissa] at hzero
    rw [hzero, Nat.cast_zero, zero_mul] at hround
    refine ⟨trivial, 0, rfl, ?_⟩
    simpa [signed] using hround.signed sign
  · simp only [hmantissa]
    exact ⟨hcanonical, _, rfl, hround.signed sign⟩

/-! ## Numbers that need no rounding near zero -/

/-- The least positive double. -/
def tiny : ℚ := (2 : ℚ) ^ (-1074 : ℤ)

theorem tiny_pos : 0 < tiny := zpow_pos two_pos _

/-- A multiple of the least positive double. -/
def OnGrid (q : ℚ) : Prop := ∃ k : ℤ, q = k * tiny

theorem OnGrid.add {p q : ℚ} (hp : OnGrid p) (hq : OnGrid q) : OnGrid (p + q) := by
  obtain ⟨k, rfl⟩ := hp
  obtain ⟨l, rfl⟩ := hq
  exact ⟨k + l, by push_cast; ring⟩

theorem OnGrid.mul_int {q : ℚ} (hq : OnGrid q) (n : ℤ) : OnGrid (q * n) := by
  obtain ⟨k, rfl⟩ := hq
  exact ⟨k * n, by push_cast; ring⟩

theorem onGrid_mul_zpow (r : ℤ) {t : ℤ} (ht : -1074 ≤ t) : OnGrid (r * (2 : ℚ) ^ t) := by
  refine ⟨r * 2 ^ (t + 1074).toNat, ?_⟩
  have hsplit : t = ((t + 1074).toNat : ℤ) + -1074 := by omega
  conv_lhs => rw [hsplit, zpow_add₀ two_ne_zero, zpow_natCast]
  rw [Int.cast_mul, Int.cast_pow, Int.cast_ofNat]
  exact (mul_assoc _ _ _).symm

theorem Rounds.onGrid {q v : ℚ} (h : Rounds q v) : OnGrid v := by
  obtain ⟨r, t, rfl, ht, _⟩ := h
  exact onGrid_mul_zpow r ht

/-- Rounding changes a multiple of the least positive double by no more than a share of two to the
power of 53 of it. -/
theorem Rounds.abs_sub_le {q v : ℚ} (h : Rounds q v) (hq : OnGrid q) :
    |v - q| ≤ |q| / 2 ^ 53 := by
  obtain ⟨r, t, rfl, ht, hnear, hlarge⟩ := h
  have hhalf : |r * (2 : ℚ) ^ t - q| ≤ 2 ^ t / 2 := hnear.elim le_of_lt fun h => h.1.le
  rcases hlarge with rfl | hlarge
  · obtain ⟨k, rfl⟩ := hq
    -- two multiples that are no further apart than half of a unit are the same
    have hsame : r = k := by
      have hpos := tiny_pos
      rw [show (2 : ℚ) ^ (-1074 : ℤ) = tiny from rfl, ← sub_mul, abs_mul, abs_of_pos hpos] at hhalf
      have hlt : |((r - k : ℤ) : ℚ)| < 1 := by
        push_cast
        nlinarith
      exact sub_eq_zero.mp (Int.abs_lt_one_iff.mp (by exact_mod_cast hlt))
    rw [hsame, tiny, sub_self, abs_zero]
    positivity
  · refine hhalf.trans ?_
    rw [le_div_iff₀ (by positivity)]
    calc (2 : ℚ) ^ t / 2 * 2 ^ 53 = 2 ^ 52 * 2 ^ t := by ring
      _ ≤ |q| := hlarge

theorem Rounds.nonneg {q v : ℚ} (h : Rounds q v) (hq : 0 ≤ q) : 0 ≤ v := by
  obtain ⟨r, t, rfl, _, hnear, _⟩ := h
  have hscale : (0 : ℚ) < 2 ^ t := zpow_pos two_pos _
  have hhalf : |r * (2 : ℚ) ^ t - q| ≤ 2 ^ t / 2 := hnear.elim le_of_lt fun h => h.1.le
  have hlow : -1 < (r : ℚ) := by nlinarith [(abs_le.mp hhalf).1]
  have hr : 0 ≤ r := by
    have : (-1 : ℤ) < r := by exact_mod_cast hlow
    omega
  exact mul_nonneg (by exact_mod_cast hr) hscale.le

/-- Half of a double, unless it is rounded to nothing, is between two fifths and two thirds of it:
the half of the least positive double is rounded to the even one of its neighbours, which is
nothing. -/
theorem Rounds.half_bounds {q v : ℚ} (h : Rounds (q / 2) v) (hq : OnGrid q) (hpos : 0 < v) :
    2 / 5 * q ≤ v ∧ v ≤ 2 / 3 * q := by
  obtain ⟨r, t, rfl, ht, hnear, hlarge⟩ := h
  rcases hlarge with rfl | hlarge
  · obtain ⟨k, rfl⟩ := hq
    rw [show (2 : ℚ) ^ (-1074 : ℤ) = tiny from rfl] at hnear hpos ⊢
    have htiny := tiny_pos
    have hr : 0 < r := by exact_mod_cast pos_of_mul_pos_left hpos htiny.le
    have hscaled : r * tiny - k * tiny / 2 = (2 * r - k : ℤ) * (tiny / 2) := by
      push_cast
      ring
    rw [hscaled, abs_mul, abs_of_pos (half_pos htiny)] at hnear
    have hcases : 2 * r = k ∨ (2 * r = k + 1 ∨ 2 * r = k - 1) ∧ 2 ≤ r := by
      rcases hnear with hless | ⟨htie, heven⟩
      · have hone : |((2 * r - k : ℤ) : ℚ)| < 1 := by nlinarith
        have := Int.abs_lt_one_iff.mp (by exact_mod_cast hone)
        omega
      · have hone : |((2 * r - k : ℤ) : ℚ)| = 1 := by nlinarith
        have hone : |2 * r - k| = 1 := by exact_mod_cast hone
        obtain ⟨i, rfl⟩ := heven
        rcases (abs_eq one_pos.le).mp hone with h | h <;> omega
    have hbounds : (2 : ℚ) / 5 * k ≤ r ∧ (r : ℚ) ≤ 2 / 3 * k := by
      have hlow : (2 * k : ℚ) ≤ 5 * r := by exact_mod_cast (by omega : 2 * k ≤ 5 * r)
      have hhigh : (3 * r : ℚ) ≤ 2 * k := by exact_mod_cast (by omega : 3 * r ≤ 2 * k)
      constructor <;> linarith
    constructor <;> nlinarith
  · have hhalf : |r * (2 : ℚ) ^ t - q / 2| ≤ 2 ^ t / 2 := hnear.elim le_of_lt fun h => h.1.le
    have hclose := abs_le.mp hhalf
    rcases le_total 0 (q / 2) with hq | hq
    · rw [abs_of_nonneg hq] at hlarge
      constructor <;> linarith
    · rw [abs_of_nonpos hq] at hlarge
      linarith

end GanttChart.Number
