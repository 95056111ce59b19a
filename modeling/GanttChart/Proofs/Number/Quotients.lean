import GanttChart.Proofs.Number.Doubles

/-! # Quotients of doubles

A double that is rounded from a mantissa with more bits than a double has, and the quotient of a
whole number by a number above zero and not above one: it is the whole number itself if the divisor
is one, and lies above it if not. Rounding does not take the excess away again, since the quotient
of two mantissas differs from the dividend by more than half of a last place. -/

namespace GanttChart.Number

open Float.Model (UnpackedFloat Format totalExponent)
open Float.Model.UnpackedFloat (Sign Accuracy ExtendedMantissa)

/-! ## Rounding -/

theorem mantissa_ofMantissaAndAccuracy (m : Nat) (a : Accuracy) :
    (ExtendedMantissa.ofMantissaAndAccuracy m a).mantissa = m := by
  cases a with
  | exact => rfl
  | inexact order => cases order <;> rfl

theorem roundedMantissa_ofMantissaAndAccuracy (m : Nat) (a : Accuracy) :
    (ExtendedMantissa.ofMantissaAndAccuracy m a).roundedMantissa = a.roundToNearestEven m := by
  cases a with
  | exact => rfl
  | inexact order => cases order <;> rfl

theorem mantissa_shiftRight (em : ExtendedMantissa) (k : Nat) :
    (em >>> k).mantissa = em.mantissa / twoTo k := by
  induction k with
  | zero => exact (Nat.div_one _).symm
  | succ k ih =>
    show (em >>> k).mantissa / 2 = em.mantissa / twoTo (k + 1)
    rw [ih, Nat.div_div_eq_div_mul, twoTo_add]
    rfl

theorem roundToNearestEven_bounds (m : Nat) (a : Accuracy) :
    m ≤ a.roundToNearestEven m ∧ a.roundToNearestEven m ≤ m + 1 := by
  cases a with
  | exact => exact ⟨Nat.le_refl m, Nat.le_succ m⟩
  | inexact order =>
    cases order with
    | lt => exact ⟨Nat.le_refl m, Nat.le_succ m⟩
    | eq =>
      show m ≤ m + m % 2 ∧ m + m % 2 ≤ m + 1
      omega
    | gt => exact ⟨Nat.le_succ m, Nat.le_refl _⟩

theorem roundedMantissa_bounds (m k : Nat) (a : Accuracy) :
    m / twoTo k ≤ (ExtendedMantissa.ofMantissaAndAccuracy m a >>> k).roundedMantissa ∧
      (ExtendedMantissa.ofMantissaAndAccuracy m a >>> k).roundedMantissa ≤ m / twoTo k + 1 := by
  have hmantissa := mantissa_shiftRight (ExtendedMantissa.ofMantissaAndAccuracy m a) k
  rw [mantissa_ofMantissaAndAccuracy] at hmantissa
  rw [← hmantissa]
  exact roundToNearestEven_bounds _ _

/-- A mantissa is shifted as far as its target exponent lies above its exponent. -/
theorem shiftToTargetExponent_of_eq {m k : Nat} {e : Int} (a : Accuracy)
    (hk : max ((m.log2 : Int) + 1 + e - 53) (-1074) = e + k) :
    UnpackedFloat.shiftToTargetExponent .binary64 m e a =
      (ExtendedMantissa.ofMantissaAndAccuracy m a >>> k, e + k) := by
  have htarget : Format.binary64.targetExponent (totalExponent m e) = e + k := hk
  have hshift : (e + k - e).toNat = k := by omega
  unfold UnpackedFloat.shiftToTargetExponent UnpackedFloat.shiftToExponent
  rw [htarget]
  dsimp only
  rw [hshift]

/-- A mantissa of 53 bits or more is shifted to 53 of them. -/
theorem shiftToTargetExponent_eq {m k : Nat} {e : Int} (a : Accuracy) (hlog : m.log2 = 52 + k)
    (he : -1074 ≤ e) :
    UnpackedFloat.shiftToTargetExponent .binary64 m e a =
      (ExtendedMantissa.ofMantissaAndAccuracy m a >>> k, e + k) :=
  shiftToTargetExponent_of_eq a (by omega)

/-- Rounding a mantissa of 53 bits or more rounds it to 53 bits; a carry is shifted out. -/
theorem roundWithAccuracy_eq (sign : Sign) {m k r : Nat} {e : Int} (a : Accuracy)
    (hlog : m.log2 = 52 + k) (he : -1074 ≤ e)
    (hr : (ExtendedMantissa.ofMantissaAndAccuracy m a >>> k).roundedMantissa = r)
    (j : Nat) (hrlog : r.log2 = 52 + j) (hpos : 0 < r / twoTo j) :
    UnpackedFloat.roundWithAccuracy .binary64 sign m e a =
      .finite sign (r / twoTo j) (e + k + j) hpos := by
  have hmantissa : (ExtendedMantissa.ofMantissaAndAccuracy r .exact >>> j).mantissa =
      r / twoTo j := by
    rw [mantissa_shiftRight, mantissa_ofMantissaAndAccuracy]
  unfold UnpackedFloat.roundWithAccuracy
  rw [shiftToTargetExponent_eq a hlog he]
  dsimp only
  rw [hr, shiftToTargetExponent_eq .exact hrlog (by omega)]
  dsimp only
  rw [dif_neg (by rw [hmantissa]; exact hpos.ne')]
  simp only [hmantissa]

theorem div_twoTo_bounds {m k : Nat} (hlog : m.log2 = 52 + k) :
    twoTo 52 ≤ m / twoTo k ∧ m / twoTo k < twoTo 53 := by
  have hne : m ≠ 0 := by
    rintro rfl
    cases k <;> cases hlog
  obtain ⟨hlow, hhigh⟩ := (Nat.log2_eq_iff hne).mp hlog
  have hnext : 52 + k + 1 = 53 + k := by omega
  rw [hnext] at hhigh
  rw [Nat.le_div_iff_mul_le (twoTo_pos k), Nat.div_lt_iff_lt_mul (twoTo_pos k), ← twoTo_add,
    ← twoTo_add]
  exact ⟨hlow, hhigh⟩

/-- Rounding a mantissa of 53 bits or more gives one of 53 bits. -/
theorem exists_roundWithAccuracy (sign : Sign) {m k : Nat} {e : Int} (a : Accuracy)
    (hlog : m.log2 = 52 + k) (he : -1074 ≤ e) :
    ∃ m' e' hpos, UnpackedFloat.roundWithAccuracy .binary64 sign m e a = .finite sign m' e' hpos ∧
      m'.log2 = 52 ∧ -1074 ≤ e' ∧
      (m' : ℚ) * (2 : ℚ) ^ e' =
        (ExtendedMantissa.ofMantissaAndAccuracy m a >>> k).roundedMantissa * (2 : ℚ) ^ (e + k) := by
  obtain ⟨hlow, hhigh⟩ := div_twoTo_bounds hlog
  have hround := roundedMantissa_bounds m k a
  generalize hr : (ExtendedMantissa.ofMantissaAndAccuracy m a >>> k).roundedMantissa = r at hround
  have hpos := twoTo_pos 52
  by_cases hcarry : r < twoTo 53
  · have hrlog : r.log2 = 52 + 0 := (Nat.log2_eq_iff (by omega)).mpr ⟨hlow.trans hround.1, hcarry⟩
    have hsame : r / twoTo 0 = r := Nat.div_one r
    refine ⟨_, _, by omega, roundWithAccuracy_eq sign a hlog he hr 0 hrlog (by omega), ?_,
      by omega, ?_⟩
    · rw [hsame, hrlog]
    · rw [hsame, Nat.cast_zero, add_zero]
  · obtain rfl : r = twoTo 53 := by omega
    have hrlog : (twoTo 53).log2 = 52 + 1 := rfl
    have hhalf : twoTo 53 / twoTo 1 = twoTo 52 := rfl
    refine ⟨_, _, by omega, roundWithAccuracy_eq sign a hlog he hr 1 hrlog (by omega), rfl,
      by omega, ?_⟩
    rw [hhalf, zpow_add₀ two_ne_zero (e + k), Nat.cast_one, zpow_one,
      show twoTo 53 = twoTo 52 * 2 from rfl, Nat.cast_mul]
    ring

/-! ## Packing -/

theorem unpack_packedInfinity (sign : Sign) :
    UnpackedFloat.unpack .binary64 (UnpackedFloat.packedInfinity .binary64 sign) =
      .infinity sign := by
  unfold UnpackedFloat.unpack UnpackedFloat.packedInfinity
  simp only [UnpackedFloat.unpackExponent_packComponents,
    UnpackedFloat.unpackMantissa_packComponents, UnpackedFloat.unpackSign_packComponents,
    Sign.ofBitVec_toBitVec, if_true]
  rfl

/-- A mantissa of 53 bits whose exponent fits is packed and taken apart again. -/
theorem unpack_packComponents (sign : Sign) {m field : Nat} (hlog : m.log2 = 52)
    (hpos : 0 < field) (hfield : field < 2047) (hm : 0 < m) :
    UnpackedFloat.unpack .binary64
      (UnpackedFloat.packComponents .binary64 sign (.ofNat _ field) (.ofNat _ m)) =
      .finite sign m (field - 1075) hm := by
  have hexponent : (BitVec.ofNat 11 field).toNat = field := by
    rw [BitVec.toNat_ofNat]
    exact Nat.mod_eq_of_lt (by omega)
  have hlast : BitVec.ofNat 11 field ≠ -1#11 := by
    intro h
    have hnat : field = 2047 := hexponent.symm.trans (congrArg BitVec.toNat h)
    omega
  have hfirst : BitVec.ofNat 11 field ≠ 0#11 := by
    intro h
    have hnat : field = 0 := hexponent.symm.trans (congrArg BitVec.toNat h)
    omega
  have hmantissa : (1#1 ++ BitVec.ofNat 52 m).toNat = m := by
    obtain ⟨hlow, hhigh⟩ := (Nat.log2_eq_iff hm.ne').mp hlog
    rw [toNat_append_mantissa, BitVec.toNat_ofNat, twoTo_52]
    omega
  unfold UnpackedFloat.unpack
  simp only [UnpackedFloat.unpackExponent_packComponents,
    UnpackedFloat.unpackMantissa_packComponents, UnpackedFloat.unpackSign_packComponents,
    Sign.ofBitVec_toBitVec]
  rw [if_neg hlast, if_neg hfirst]
  simp only [hmantissa, hexponent]
  rfl

theorem pack_finite (sign : Sign) {m : Nat} (e : Int) (hlog : m.log2 = 52) (hpos : 0 < m) :
    UnpackedFloat.pack .binary64 (.finite sign m e hpos) =
      if 2048 ≤ (e + 1023 + 52).toNat + 1 then UnpackedFloat.packedInfinity .binary64 sign
      else UnpackedFloat.packComponents .binary64 sign (.ofNat _ (e + 1023 + 52).toNat)
        (.ofNat _ m) := by
  have hbits : m.log2 + 1 = Format.binary64.mantissaBits := congrArg (· + 1) hlog
  unfold UnpackedFloat.pack
  dsimp only
  rw [if_pos hbits]
  rfl

/-- A rounded number that is packed and taken apart again is the same number, if it is not too
large for a double. -/
theorem ofFloat?_pack {sign : Sign} {m : Nat} {e : Int} {hpos : 0 < m} {b : Binary} {x : Float}
    (hx : x.toModel = .pack (.finite sign m e hpos)) (hlog : m.log2 = 52) (he : -1074 ≤ e)
    (h : Binary.ofFloat? x = some b) : b = ⟨sign == .negative, m, e⟩ := by
  have hunpack : x.toModel.unpack = UnpackedFloat.unpack .binary64
      (UnpackedFloat.pack .binary64 (.finite sign m e hpos)) := by
    rw [hx]
    rfl
  rw [Binary.ofFloat?_eq, hunpack, pack_finite sign e hlog] at h
  split at h
  · rw [unpack_packedInfinity] at h
    cases h
  · rw [unpack_packComponents sign hlog (by omega) (by omega) hpos] at h
    cases h
    congr 1
    omega

/-! ## Quotients -/

/-- The parts of a finite double. -/
theorem bounds_of_ofFloat? {x : Float} {b : Binary} (h : Binary.ofFloat? x = some b) :
    b.mantissa < twoTo 53 ∧ (twoTo 52 ≤ b.mantissa ∨ b.exponent = -1074) := by
  unfold Binary.ofFloat? Binary.ofBits? at h
  have hfraction : x.toBits.toNat % twoTo 52 < twoTo 52 := Nat.mod_lt _ (twoTo_pos 52)
  have hdouble : twoTo 53 = 2 * twoTo 52 := rfl
  dsimp only at h
  split at h
  · cases h
  · split at h
    · cases h
      exact ⟨show x.toBits.toNat % twoTo 52 < twoTo 53 by omega, .inr rfl⟩
    · cases h
      exact ⟨show x.toBits.toNat % twoTo 52 + twoTo 52 < twoTo 53 by omega,
        .inl (Nat.le_add_left _ _)⟩

/-- A double above zero and not above one. -/
theorem unpack_of_fraction {p : Float} (hpos : 0 < p) (hle : p ≤ 1) :
    ∃ m e hm, p.toModel.unpack = .finite .positive m e hm ∧ m < twoTo 53 ∧
      (e < -52 ∨ m = twoTo 52 ∧ e = -52) := by
  have hzero : UnpackedFloat.lt (.zero .positive) p.toModel.unpack = true := of_decide_eq_true hpos
  have hone : UnpackedFloat.le p.toModel.unpack
      (.finite .positive (twoTo 52) (-52) (twoTo_pos 52)) = true := of_decide_eq_true hle
  have hparts := Binary.ofFloat?_eq p
  cases hunpack : p.toModel.unpack with
  | notANumber =>
    rw [hunpack] at hzero
    cases hzero
  | infinity sign =>
    rw [hunpack] at hzero hone
    cases sign with
    | negative => cases hzero
    | positive => cases hone
  | zero sign =>
    rw [hunpack] at hzero
    cases hzero
  | finite sign m e hm =>
    rw [hunpack] at hzero hone hparts
    cases sign with
    | negative => cases hzero
    | positive =>
      obtain ⟨hmantissa, hfull⟩ : m < twoTo 53 ∧ (twoTo 52 ≤ m ∨ e = -1074) :=
        bounds_of_ofFloat? hparts
      refine ⟨m, e, hm, rfl, hmantissa, ?_⟩
      -- the exponents are compared first, since both mantissas have their leading bit
      have hcompare : ((compare e (-52)).then (compare m (twoTo 52))).isLE = true := hone
      rcases Int.lt_trichotomy e (-52) with hlt | heq | hgt
      · exact .inl hlt
      · rw [compare_eq_iff_eq.mpr heq] at hcompare
        have hhigh : m ≤ twoTo 52 := Nat.isLE_compare.mp hcompare
        exact .inr ⟨Nat.le_antisymm hhigh (hfull.resolve_right (by omega)), heq⟩
      · rw [compare_gt_iff_gt.mpr hgt] at hcompare
        cases hcompare

theorem unpack_one : (1 : Float).toModel.unpack =
    .finite .positive (twoTo 52) (-52) (twoTo_pos 52) := rfl

theorem eq_of_unpack_eq {x y : Float} (h : x.toModel.unpack = y.toModel.unpack) : x = y :=
  Float.toBits_inj.mp (UInt64.toBitVec_inj.mp
    ((UnpackedFloat.unpack_inj_of_valid x.toModel.valid y.toModel.valid).mp h))

/-- The double of a positive whole number has all 53 bits of a mantissa. -/
theorem unpack_ofInt {n : Int} (hn : 0 < n) (hlt : n.natAbs < twoTo 53) :
    ∃ m e hm, (ofInt n).toModel.unpack = .finite .positive m e hm ∧ m.log2 = 52 ∧ -52 ≤ e ∧
      (m : ℚ) * (2 : ℚ) ^ e = n := by
  have hne : n.natAbs ≠ 0 := by omega
  have hlog : n.natAbs.log2 ≤ 52 := Nat.le_of_lt_succ ((Nat.log2_lt hne).mpr hlt)
  have hfull : (n.natAbs * twoTo (52 - n.natAbs.log2)).log2 = 52 := by
    rw [log2_mul_twoTo hne]
    omega
  have hvalue : ((n.natAbs * twoTo (52 - n.natAbs.log2) : Nat) : ℚ) *
      (2 : ℚ) ^ ((n.natAbs.log2 : Int) - 52) = n := by
    rw [cast_mul_twoTo_log2 hlog, Nat.cast_natAbs, abs_of_pos hn]
  have hparts := ofFloat?_ofInt (by omega) hlt
  rw [Binary.ofFloat?_eq, decide_eq_false (by omega)] at hparts
  cases hunpack : (ofInt n).toModel.unpack with
  | notANumber =>
    rw [hunpack] at hparts
    cases hparts
  | infinity sign =>
    rw [hunpack] at hparts
    cases hparts
  | zero sign =>
    rw [hunpack] at hparts
    injection hparts with hparts
    injection hparts with _ hmantissa _
    rw [← hmantissa] at hfull
    cases hfull
  | finite sign m e hm =>
    rw [hunpack] at hparts
    injection hparts with hparts
    injection hparts with hsign hmantissa hexponent
    rw [← hmantissa, ← hexponent] at hvalue
    rw [← hmantissa] at hfull
    cases sign with
    | positive => exact ⟨m, e, hm, rfl, hfull, by omega, hvalue⟩
    | negative => cases hsign

/-- The division of a mantissa of 53 bits by a number not above one. -/
theorem divCore_eq {M m L : Nat} {E e : Int} (hM : M.log2 = 52) (hL : m.log2 + 1 = L)
    (hE : -52 ≤ E) (he : e + L ≤ 1) :
    UnpackedFloat.divCore .binary64 M E m e =
      (M * twoTo L / m, E - e - L, UnpackedFloat.accuracyOfFraction (M * twoTo L % m) m) := by
  have htarget : Format.binary64.targetExponent (totalExponent M E - totalExponent m e) =
      E - e - L := by
    show max ((M.log2 : Int) + 1 + E - ((m.log2 : Int) + 1 + e) - 53) (-1074) = E - e - L
    omega
  have hmin : min (E - e) (E - e - L) = E - e - L := by omega
  have hshift : (E - e - (E - e - L)).toNat = L := by omega
  unfold UnpackedFloat.divCore
  rw [htarget, hmin]
  dsimp only
  rw [hshift, Nat.shiftLeft_eq]
  rfl

theorem toModel_div (x p : Float) :
    (x / p).toModel = .pack (UnpackedFloat.div .binary64 x.toModel.unpack p.toModel.unpack) := rfl

theorem quotient_bounds {M m L : Nat} (hM : M < twoTo 53) (hm : 0 < m) (hL : m.log2 + 1 = L) :
    M ≤ M * twoTo L / m ∧ M * twoTo L / m < twoTo 54 := by
  have hlow : twoTo m.log2 ≤ m := Nat.log2_self_le hm.ne'
  have hhigh : m < twoTo L := hL ▸ Nat.lt_log2_self
  have hwide : twoTo L = 2 * twoTo m.log2 := by
    rw [← hL, twoTo_add, Nat.mul_comm]
    rfl
  constructor
  · exact (Nat.le_div_iff_mul_le hm).mpr (Nat.mul_le_mul_left M hhigh.le)
  · rw [Nat.div_lt_iff_lt_mul hm, hwide]
    calc M * (2 * twoTo m.log2) < twoTo 53 * (2 * twoTo m.log2) :=
          Nat.mul_lt_mul_of_pos_right hM (Nat.mul_pos two_pos (twoTo_pos _))
      _ = twoTo 54 * twoTo m.log2 := by rw [← Nat.mul_assoc]; rfl
      _ ≤ twoTo 54 * m := Nat.mul_le_mul_left _ hlow

/-- A quotient that is not more than the dividend is rounded up: since the divisor is smaller than
what the dividend was multiplied by, the remainder is not less than the dividend, which is more than
half of the divisor. -/
theorem lt_roundToNearestEven_quotient {M m N : Nat} (hM : m < 2 * M) (hN : m < N)
    (hle : M ≤ M * N / m) :
    M < (UnpackedFloat.accuracyOfFraction (M * N % m) m).roundToNearestEven (M * N / m) := by
  rcases hle.lt_or_eq with hmore | hsame
  · exact hmore.trans_le (roundToNearestEven_bounds _ _).1
  · have hdivision := Nat.div_add_mod (M * N) m
    have hspare : M * m + M ≤ M * N := by
      rw [← Nat.mul_succ]
      exact Nat.mul_le_mul_left M hN
    rw [← hsame, Nat.mul_comm m M] at hdivision
    have hnonzero : M * N % m ≠ 0 := by omega
    have hhalf : compare (2 * (M * N % m)) m = .gt := compare_gt_iff_gt.mpr (by omega)
    rw [← hsame, UnpackedFloat.accuracyOfFraction, if_neg hnonzero, hhalf]
    exact Nat.lt_succ_self M

/-- Dividing a mantissa of 53 bits by one of at most 53 bits gives at least 53 bits, and rounding
them gives more than the dividend. -/
theorem lt_roundedMantissa_quotient {M m L : Nat} (hM : M.log2 = 52) (hm : 0 < m)
    (hL : m.log2 + 1 = L) (hlt : m < twoTo 53) :
    ∃ k, (M * twoTo L / m).log2 = 52 + k ∧
      M < (ExtendedMantissa.ofMantissaAndAccuracy (M * twoTo L / m)
        (UnpackedFloat.accuracyOfFraction (M * twoTo L % m) m) >>> k).roundedMantissa * twoTo k := by
  obtain ⟨hMlow, hMhigh⟩ : twoTo 52 ≤ M ∧ M < twoTo 53 :=
    (Nat.log2_eq_iff (by rintro rfl; cases hM)).mp hM
  have hdouble : twoTo 53 = 2 * twoTo 52 := rfl
  have hpos := twoTo_pos 52
  obtain ⟨hlow, hhigh⟩ := quotient_bounds hMhigh hm hL
  have hround := lt_roundToNearestEven_quotient (by omega) (hL ▸ Nat.lt_log2_self) hlow
  generalize M * twoTo L / m = q at hlow hhigh hround
  by_cases hcarry : q < twoTo 53
  · have hlog : q.log2 = 52 + 0 := (Nat.log2_eq_iff (by omega)).mpr ⟨hMlow.trans hlow, hcarry⟩
    refine ⟨0, hlog, ?_⟩
    rw [show twoTo 0 = 1 from rfl, Nat.mul_one]
    exact hround.trans_eq (roundedMantissa_ofMantissaAndAccuracy q _).symm
  · have hlog : q.log2 = 52 + 1 :=
      (Nat.log2_eq_iff (by omega)).mpr ⟨Nat.not_lt.mp hcarry, hhigh⟩
    refine ⟨1, hlog, ?_⟩
    have hshift := (roundedMantissa_bounds q 1
      (UnpackedFloat.accuracyOfFraction (M * twoTo L % m) m)).1
    have htwo : twoTo 1 = 2 := rfl
    rw [htwo] at hshift ⊢
    omega

/-- The double that a division gives: it is rounded from the quotient of the mantissas. -/
theorem ofFloat?_div {x p : Float} {M m L k : Nat} {E e : Int} {hMpos : 0 < M} {hm : 0 < m}
    {b : Binary} (hx : x.toModel.unpack = .finite .positive M E hMpos)
    (hp : p.toModel.unpack = .finite .positive m e hm) (hM : M.log2 = 52) (hL : m.log2 + 1 = L)
    (hE : -52 ≤ E) (he : e + L ≤ 1) (hlog : (M * twoTo L / m).log2 = 52 + k)
    (h : Binary.ofFloat? (x / p) = some b) :
    b.negative = false ∧ b.magnitude =
      (ExtendedMantissa.ofMantissaAndAccuracy (M * twoTo L / m)
        (UnpackedFloat.accuracyOfFraction (M * twoTo L % m) m) >>> k).roundedMantissa *
        (2 : ℚ) ^ (E - e - L + k) := by
  obtain ⟨m', e', hpos, hround, hm', he', hvalue⟩ := exists_roundWithAccuracy .positive
    (UnpackedFloat.accuracyOfFraction (M * twoTo L % m) m) hlog (show -1074 ≤ E - e - L by omega)
  have hdiv : UnpackedFloat.div .binary64 x.toModel.unpack p.toModel.unpack =
      .finite .positive m' e' hpos := by
    rw [hx, hp, ← hround]
    show UnpackedFloat.roundWithAccuracy .binary64 _
      (UnpackedFloat.divCore .binary64 M E m e).1 (UnpackedFloat.divCore .binary64 M E m e).2.1
      (UnpackedFloat.divCore .binary64 M E m e).2.2 = _
    rw [divCore_eq hM hL hE he]
    rfl
  have hmodel : (x / p).toModel = .pack (.finite .positive m' e' hpos) := by
    rw [toModel_div, hdiv]
  rw [ofFloat?_pack hmodel hm' he' h]
  exact ⟨rfl, hvalue⟩

theorem roundedMantissa_mul_two (m : Nat) :
    (ExtendedMantissa.ofMantissaAndAccuracy (m * 2) .exact >>> 1).roundedMantissa = m := by
  have hshift : ExtendedMantissa.ofMantissaAndAccuracy (m * 2) .exact >>> 1 =
      .ofMantissaAndAccuracy m .exact := by
    show (⟨m * 2 / 2, m * 2 % 2 != 0, false⟩ : ExtendedMantissa) = ⟨m, false, false⟩
    rw [Nat.mul_div_cancel m two_pos, Nat.mul_mod_left]
    rfl
  rw [hshift, roundedMantissa_ofMantissaAndAccuracy]
  rfl

/-- Dividing by one keeps a whole number. -/
theorem magnitude_div_one {n : Int} {b : Binary} (hn : 0 < n) (hlt : n.natAbs < twoTo 53)
    (h : Binary.ofFloat? (ofInt n / 1) = some b) : b.negative = false ∧ b.magnitude = n := by
  obtain ⟨M, E, hMpos, hx, hM, hE, hvalue⟩ := unpack_ofInt hn hlt
  have hwide : M * twoTo 53 = twoTo 52 * (M * 2) := by
    rw [show twoTo 53 = 2 * twoTo 52 from rfl, ← Nat.mul_assoc, Nat.mul_comm]
  have hquotient : M * twoTo 53 / twoTo 52 = M * 2 := by
    rw [hwide, Nat.mul_div_cancel_left _ (twoTo_pos 52)]
  have hrest : M * twoTo 53 % twoTo 52 = 0 := by rw [hwide, Nat.mul_mod_right]
  have hlog : (M * twoTo 53 / twoTo 52).log2 = 52 + 1 := by
    rw [hquotient, Nat.mul_comm, Nat.log2_two_mul hMpos.ne', hM]
  have hexponent : E - (-52) - ((53 : Nat) : Int) + ((1 : Nat) : Int) = E := by omega
  have hresult := ofFloat?_div hx unpack_one hM (L := 53) rfl hE (by omega) hlog h
  rwa [hquotient, hrest, UnpackedFloat.accuracyOfFraction, if_pos rfl, roundedMantissa_mul_two,
    hexponent, hvalue] at hresult

/-- Dividing by less than one gives more than the whole number, also after rounding. -/
theorem lt_magnitude_div {n : Int} {p : Float} {b : Binary} (hn : 0 < n)
    (hlt : n.natAbs < twoTo 53) (hpos : 0 < p) (hle : p ≤ 1) (hne : p ≠ 1)
    (h : Binary.ofFloat? (ofInt n / p) = some b) : b.negative = false ∧ n < b.magnitude := by
  obtain ⟨M, E, hMpos, hx, hM, hE, hvalue⟩ := unpack_ofInt hn hlt
  obtain ⟨m, e, hm, hp, hmantissa, hcases⟩ := unpack_of_fraction hpos hle
  have hsmall : e < -52 := by
    refine hcases.resolve_right ?_
    rintro ⟨rfl, rfl⟩
    exact hne (eq_of_unpack_eq (hp.trans unpack_one.symm))
  have hlog : m.log2 ≤ 52 := Nat.le_of_lt_succ ((Nat.log2_lt hm.ne').mpr hmantissa)
  obtain ⟨k, hk, hround⟩ := lt_roundedMantissa_quotient hM hm rfl hmantissa
  obtain ⟨hnegative, hmagnitude⟩ := ofFloat?_div hx hp hM rfl hE (by omega) hk h
  generalize (ExtendedMantissa.ofMantissaAndAccuracy _ _ >>> k).roundedMantissa = r
    at hround hmagnitude
  have hexponent : E ≤ E - e - ((m.log2 + 1 : Nat) : Int) := by omega
  have hcast : (M : ℚ) < r * (2 : ℚ) ^ (k : Int) := by
    rw [zpow_natCast]
    exact_mod_cast hround
  refine ⟨hnegative, ?_⟩
  calc (n : ℚ) = M * (2 : ℚ) ^ E := hvalue.symm
    _ < r * (2 : ℚ) ^ (k : Int) * (2 : ℚ) ^ E := mul_lt_mul_of_pos_right hcast (by positivity)
    _ ≤ r * (2 : ℚ) ^ (k : Int) * (2 : ℚ) ^ (E - e - ((m.log2 + 1 : Nat) : Int)) :=
      mul_le_mul_of_nonneg_left (zpow_le_zpow_right₀ one_le_two hexponent) (by positivity)
    _ = b.magnitude := by
      rw [hmagnitude, mul_assoc, ← zpow_add₀ two_ne_zero, add_comm (k : Int)]

/-- Nothing divided by a number above zero and not above one is nothing. -/
theorem ofFloat?_zero_div {p : Float} (hpos : 0 < p) (hle : p ≤ 1) :
    Binary.ofFloat? (ofInt 0 / p) = some ⟨false, 0, -1074⟩ := by
  obtain ⟨m, e, hm, hp, -⟩ := unpack_of_fraction hpos hle
  have hzero : ofInt 0 = 0 := by decide +kernel
  have hmodel : (ofInt 0 / p).toModel = .pack (.zero .positive) := by
    rw [toModel_div, hzero, hp]
    rfl
  rw [Binary.ofFloat?_eq, hmodel]
  rfl

theorem Binary.ceil_eq_zero {b : Binary} (h : b.mantissa = 0) : b.ceil = 0 := by
  rw [Binary.ceil_eq, Binary.magnitude, h, Nat.cast_zero, zero_mul, Nat.ceil_zero]

/-- Dividing a whole number by a number above zero and not above one keeps it if that is one, and
gives more if it is not and there is anything to divide. -/
theorem ceil_quotient {n : Int} {p : Float} {b : Binary} (hn : 0 ≤ n) (hlt : n.natAbs < twoTo 53)
    (hpos : 0 < p) (hle : p ≤ 1) (h : Binary.ofFloat? (ofInt n / p) = some b) :
    b.negative = false ∧ (p = 1 → (b.ceil : Int) = n) ∧ (p ≠ 1 → 0 < n → n < b.ceil) := by
  rcases hn.lt_or_eq with hsome | rfl
  · rw [Binary.ceil_eq]
    by_cases hone : p = 1
    · subst hone
      obtain ⟨hnegative, hmagnitude⟩ := magnitude_div_one hsome hlt h
      refine ⟨hnegative, fun _ => ?_, fun hne => absurd rfl hne⟩
      rw [hmagnitude]
      lift n to ℕ using hn
      rw [Int.cast_natCast, Nat.ceil_natCast]
    · obtain ⟨hnegative, hmagnitude⟩ := lt_magnitude_div hsome hlt hpos hle hone h
      refine ⟨hnegative, fun heq => absurd heq hone, fun _ _ => ?_⟩
      exact_mod_cast hmagnitude.trans_le (Nat.le_ceil b.magnitude)
  · rw [ofFloat?_zero_div hpos hle] at h
    cases h
    refine ⟨rfl, fun _ => ?_, fun _ hzero => absurd hzero (Int.lt_irrefl 0)⟩
    rw [Binary.ceil_eq_zero rfl, Nat.cast_zero]

end GanttChart.Number
