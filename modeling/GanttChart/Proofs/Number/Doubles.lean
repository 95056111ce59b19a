import GanttChart.Number.Binary
import Mathlib

/-! # Doubles and whole numbers

The bits of a double and the unpacked form that its arithmetic works on say the same number. A
whole number below two to the power of 53 is a double; the double nearest to a larger one is not
smaller than that power. -/

namespace GanttChart.Number

open Float.Model (UnpackedFloat Format)
open Float.Model.UnpackedFloat (Sign)

theorem twoTo_52 : twoTo 52 = 4503599627370496 := rfl
theorem twoTo_11 : twoTo 11 = 2048 := rfl
theorem twoTo_63 : twoTo 63 = 9223372036854775808 := rfl

/-! ## Unpacked doubles -/

/-- The number that an unpacked double stands for; none for the infinities and for what is no
number. -/
def Binary.ofUnpacked? : UnpackedFloat → Option Binary
  | .infinity _ => none
  | .notANumber => none
  | .zero sign => some ⟨sign == .negative, 0, -1074⟩
  | .finite sign mantissa exponent _ => some ⟨sign == .negative, mantissa, exponent⟩

theorem unpackMantissa_toNat (b : BitVec 64) :
    (@UnpackedFloat.unpackMantissa .binary64 b).toNat = b.toNat % twoTo 52 := by
  rw [UnpackedFloat.unpackMantissa_def, BitVec.extractLsb'_toNat, Nat.shiftRight_zero]
  rfl

theorem unpackExponent_toNat (b : BitVec 64) :
    (@UnpackedFloat.unpackExponent .binary64 b).toNat =
      b.toNat / twoTo 52 % twoTo 11 := by
  rw [UnpackedFloat.unpackExponent_def, BitVec.extractLsb'_toNat, Nat.shiftRight_eq_div_pow]
  rfl

theorem unpackSign_toNat (b : BitVec 64) :
    (@UnpackedFloat.unpackSign .binary64 b).toNat = b.toNat / twoTo 63 % 2 := by
  rw [UnpackedFloat.unpackSign_def, BitVec.extractLsb'_toNat, Nat.shiftRight_eq_div_pow]
  rfl

theorem isNegative_unpackSign (b : BitVec 64) :
    (Sign.ofBitVec (@UnpackedFloat.unpackSign .binary64 b) == .negative) =
      decide (twoTo 63 ≤ b.toNat) := by
  have hlt : b.toNat < twoTo 64 := b.isLt
  have hbit := unpackSign_toNat b
  have hdouble : twoTo 64 = 2 * twoTo 63 := rfl
  unfold Sign.ofBitVec
  by_cases hneg : twoTo 63 ≤ b.toNat
  · have hone : b.toNat / twoTo 63 = 1 := by
      rw [Nat.div_eq_iff] <;> omega
    rw [if_neg, decide_eq_true hneg]
    · rfl
    · intro h
      rw [h, hone] at hbit
      cases hbit
  · have hzero : b.toNat / twoTo 63 = 0 := Nat.div_eq_of_lt (Nat.not_le.mp hneg)
    rw [if_pos, decide_eq_false hneg]
    · rfl
    · exact BitVec.eq_of_toNat_eq (by rw [hbit, hzero]; rfl)

theorem toNat_append_mantissa (m : BitVec 52) : (1#1 ++ m).toNat = m.toNat + twoTo 52 := by
  rw [BitVec.toNat_append, ← Nat.shiftLeft_add_eq_or_of_lt m.isLt, Nat.add_comm]
  rfl

/-- The bits of a double and its unpacked form stand for the same number. -/
theorem Binary.ofFloat?_eq (x : Float) :
    Binary.ofFloat? x = Binary.ofUnpacked? x.toModel.unpack := by
  have hfraction := unpackMantissa_toNat x.toBits.toBitVec
  have hfield := unpackExponent_toNat x.toBits.toBitVec
  have hsign := isNegative_unpackSign x.toBits.toBitVec
  unfold Binary.ofFloat? Binary.ofBits?
  change _ = Binary.ofUnpacked? (UnpackedFloat.unpack .binary64 x.toBits.toBitVec)
  rw [UInt64.toNat_toBitVec] at hfraction hfield hsign
  rw [← hfraction, ← hfield, ← hsign]
  generalize x.toBits.toBitVec = b
  have hlast : @UnpackedFloat.unpackExponent .binary64 b = -1#11 ↔
      (@UnpackedFloat.unpackExponent .binary64 b).toNat = 2047 := BitVec.toNat_inj.symm
  have hfirst : @UnpackedFloat.unpackExponent .binary64 b = 0#11 ↔
      (@UnpackedFloat.unpackExponent .binary64 b).toNat = 0 := BitVec.toNat_inj.symm
  fun_cases UnpackedFloat.unpack with
  | case1 m f s sign hf hm => exact if_pos (hlast.mp hf)
  | case2 m f hf hm => exact if_pos (hlast.mp hf)
  | case3 m f s sign hf hf' hm =>
    have hzero : m.toNat = 0 := congrArg BitVec.toNat hm
    refine (if_neg (mt hlast.mpr hf)).trans ((if_pos (hfirst.mp hf')).trans ?_)
    rw [hzero]
    rfl
  | case4 m f e s sign hf hf' hm =>
    have he : e + 1 = -1074 := by
      have hzero : f.toNat = 0 := hfirst.mp hf'
      show (f.toNat : Int) - (1023 + 52) + 1 = -1074
      omega
    refine (if_neg (mt hlast.mpr hf)).trans ((if_pos (hfirst.mp hf')).trans ?_)
    rw [Binary.ofUnpacked?, he]
  | case5 m f e s sign hf hf' =>
    refine (if_neg (mt hlast.mpr hf)).trans ((if_neg (mt hfirst.mpr hf')).trans ?_)
    rw [Binary.ofUnpacked?, toNat_append_mantissa]
    rfl

/-! ## Doubles made of bits -/

theorem toBits_ofBits {u : UInt64}
    (h : u.toNat / twoTo 52 % twoTo 11 = 2047 → u.toNat % twoTo 52 = 0) :
    (Float.ofBits u).toBits = u := by
  have hvalid : Format.binary64.Valid u.toBitVec := by
    refine ⟨fun hlast hfraction => absurd ?_ hfraction⟩
    have hfield := (unpackExponent_toNat u.toBitVec).symm.trans (congrArg BitVec.toNat hlast)
    exact BitVec.eq_of_toNat_eq ((unpackMantissa_toNat u.toBitVec).trans (h hfield))
  exact UInt64.toBitVec_inj.mp (UnpackedFloat.pack_unpack_of_valid hvalid)

/-- The bits of a magnitude together with a sign. -/
def withSign (negative : Bool) (bits : Nat) : Nat := if negative then bits + twoTo 63 else bits

theorem ofFloat?_ofBits {bits : Nat} (negative : Bool) (h : bits ≤ 2047 * twoTo 52) :
    Binary.ofFloat? (Float.ofBits (.ofNat (withSign negative bits))) =
      Binary.ofBits? (withSign negative bits) := by
  rw [twoTo_52] at h
  have hlt : withSign negative bits < 18446744073709551616 := by
    unfold withSign
    rw [twoTo_63]
    split <;> omega
  have hnat : (UInt64.ofNat (withSign negative bits)).toNat = withSign negative bits :=
    UInt64.toNat_ofNat_of_lt' hlt
  unfold Binary.ofFloat?
  rw [toBits_ofBits, hnat]
  rw [hnat]
  unfold withSign
  rw [twoTo_52, twoTo_11, twoTo_63]
  split <;> omega

theorem nearestBits_le (num den : Nat) : nearestBits num den ≤ 2047 * twoTo 52 :=
  Nat.min_le_right _ _

theorem ofFloat?_nearest (negative : Bool) {num : Nat} (den : Nat) (hnum : num ≠ 0) :
    Binary.ofFloat? (nearest negative num den) =
      Binary.ofBits? (withSign negative (nearestBits num den)) := by
  rw [← ofFloat?_ofBits negative (nearestBits_le num den)]
  unfold nearest withSign
  rw [if_neg hnum]

/-- What bits say of which the exponent field is not the first one. -/
theorem ofBits?_withSign (negative : Bool) {field fraction : Nat} (hpos : 0 < field)
    (hfield : field ≤ 2047) (hfraction : fraction < twoTo 52) :
    Binary.ofBits? (withSign negative (field * twoTo 52 + fraction)) =
      if field = 2047 then none else some ⟨negative, fraction + twoTo 52, field - 1075⟩ := by
  rw [twoTo_52] at hfraction
  have hlow : withSign negative (field * twoTo 52 + fraction) % twoTo 52 = fraction := by
    unfold withSign
    rw [twoTo_52, twoTo_63]
    split <;> omega
  have hhigh : withSign negative (field * twoTo 52 + fraction) / twoTo 52 % twoTo 11 = field := by
    unfold withSign
    rw [twoTo_52, twoTo_11, twoTo_63]
    split <;> omega
  have htop : decide (twoTo 63 ≤ withSign negative (field * twoTo 52 + fraction)) = negative := by
    unfold withSign
    rw [twoTo_52, twoTo_63]
    cases negative
    · exact decide_eq_false (by rw [if_neg Bool.false_ne_true]; omega)
    · exact decide_eq_true (by rw [if_pos rfl]; omega)
  unfold Binary.ofBits?
  rw [hlow, hhigh, htop]
  dsimp only
  rw [if_neg (show field ≠ 0 by omega)]

/-! ## The magnitude of a number -/

/-- The magnitude of a number. -/
def Binary.magnitude (b : Binary) : ℚ := b.mantissa * (2 : ℚ) ^ b.exponent

theorem twoTo_cast {e : Int} (he : 0 ≤ e) : (twoTo e.toNat : ℚ) = (2 : ℚ) ^ e := by
  lift e to ℕ using he
  rw [Int.toNat_natCast, zpow_natCast]
  exact Nat.cast_pow 2 e

theorem Binary.ratio_eq (b : Binary) : (b.ratio.1 : ℚ) = b.magnitude * b.ratio.2 := by
  unfold Binary.ratio Binary.magnitude
  split
  · rename_i he
    rw [Nat.cast_mul, twoTo_cast he, Nat.cast_one, mul_one]
  · rename_i he
    rw [twoTo_cast (by omega), mul_assoc, ← zpow_add₀ two_ne_zero, add_neg_cancel, zpow_zero,
      mul_one]

theorem Binary.ceil_eq (b : Binary) : b.ceil = ⌈b.magnitude⌉₊ := by
  have hden : (0 : ℚ) < b.ratio.2 := by exact_mod_cast b.ratio_den_pos
  refine Nat.le_antisymm (Binary.ceil_le ?_) (Nat.ceil_le.mpr ?_)
  · have h := mul_le_mul_of_nonneg_right (Nat.le_ceil b.magnitude) hden.le
    rw [← b.ratio_eq] at h
    exact_mod_cast h
  · have h : (b.ratio.1 : ℚ) ≤ b.ceil * b.ratio.2 := by exact_mod_cast b.ratio_le_ceil
    rw [b.ratio_eq] at h
    exact le_of_mul_le_mul_right h hden

theorem Binary.ceil_le_one_iff (b : Binary) : b.ceil ≤ 1 ↔ b.magnitude ≤ 1 := by
  rw [Binary.ceil_eq, Nat.ceil_le, Nat.cast_one]

theorem Binary.magnitude_nonneg (b : Binary) : 0 ≤ b.magnitude := by
  unfold Binary.magnitude
  positivity

/-! ## Whole numbers -/

theorem nearestWhole_one (n : Nat) : nearestWhole n 1 = n := by
  simp [nearestWhole, Nat.mod_one]

theorem le_nearestWhole (num den : Nat) : num / den ≤ nearestWhole num den := by
  simp only [nearestWhole]
  split
  · exact Nat.le_refl _
  · split <;> omega

/-- The bits of the double nearest to a whole number. -/
theorem nearestBits_one {k : Nat} (hk : k ≠ 0) :
    nearestBits k 1 = min ((k.log2 + 1022) * twoTo 52 +
      if 52 ≤ k.log2 then nearestWhole k (twoTo (k.log2 - 52)) else k * twoTo (52 - k.log2))
      (2047 * twoTo 52) := by
  have hreached : 1 * twoTo k.log2 ≤ k := (Nat.one_mul _).trans_le (Nat.log2_self_le hk)
  have hguess : ((k.log2 : Int) - (Nat.log2 1 : Nat)) = k.log2 := by
    rw [show Nat.log2 1 = 0 from rfl, Nat.cast_zero, sub_zero]
  have hexponent : max (-1074) ((k.log2 : Int) - 52) = (k.log2 : Int) - 52 := by omega
  have hfield : ((k.log2 : Int) - 52 + 1074).toNat = k.log2 + 1022 := by omega
  simp only [nearestBits, hguess, Nat.cast_nonneg, if_true, Int.toNat_natCast, hreached,
    hexponent, nearestWhole_one, hfield]
  by_cases hwide : 52 ≤ k.log2
  · have hup : ((k.log2 : Int) - 52).toNat = k.log2 - 52 := by omega
    rw [if_pos hwide, if_pos (by omega), Nat.one_mul, hup]
  · have hdown : (-((k.log2 : Int) - 52)).toNat = 52 - k.log2 := by omega
    rw [if_neg hwide, if_neg (by omega), hdown]

theorem log2_mul_twoTo {k : Nat} (hk : k ≠ 0) (i : Nat) :
    (k * twoTo i).log2 = k.log2 + i := by
  induction i with
  | zero => rw [show twoTo 0 = 1 from rfl, Nat.mul_one, Nat.add_zero]
  | succ i ih =>
    have hne : k * twoTo i ≠ 0 := Nat.mul_ne_zero hk (twoTo_pos i).ne'
    have hdouble : k * twoTo (i + 1) = 2 * (k * twoTo i) := by
      rw [twoTo_add, ← Nat.mul_assoc, Nat.mul_comm]
      rfl
    rw [hdouble, Nat.log2_two_mul hne, ih, Nat.add_assoc]

/-- The double of a whole number has all 53 bits of a mantissa. -/
theorem ofFloat?_ofInt {n : Int} (hn : n ≠ 0) (hlt : n.natAbs < twoTo 53) :
    Binary.ofFloat? (ofInt n) = some
      ⟨decide (n < 0), n.natAbs * twoTo (52 - n.natAbs.log2), (n.natAbs.log2 : Int) - 52⟩ := by
  have hk : n.natAbs ≠ 0 := Int.natAbs_ne_zero.mpr hn
  unfold ofInt
  rw [ofFloat?_nearest _ _ hk, nearestBits_one hk]
  generalize n.natAbs = k at hk hlt
  have hlog : k.log2 ≤ 52 := Nat.le_of_lt_succ ((Nat.log2_lt hk).mpr hlt)
  have hmantissa : (if 52 ≤ k.log2 then nearestWhole k (twoTo (k.log2 - 52))
      else k * twoTo (52 - k.log2)) = k * twoTo (52 - k.log2) := by
    split
    · have hwide : k.log2 = 52 := by omega
      rw [hwide]
      exact (nearestWhole_one k).trans (Nat.mul_one k).symm
    · rfl
  have hmlog : (k * twoTo (52 - k.log2)).log2 = 52 := by
    rw [log2_mul_twoTo hk]
    omega
  rw [hmantissa]
  generalize k * twoTo (52 - k.log2) = m at hmlog
  obtain ⟨hlow, hhigh⟩ := (Nat.log2_eq_iff (by rintro rfl; cases hmlog)).mp hmlog
  -- the leading bit of the mantissa is not written down but counted into the exponent field
  have hfields : min ((k.log2 + 1022) * twoTo 52 + m) (2047 * twoTo 52) =
      (k.log2 + 1023) * twoTo 52 + (m - twoTo 52) := by
    rw [twoTo_52]
    omega
  rw [hfields, ofBits?_withSign _ (by omega) (by omega) (by rw [twoTo_52]; omega),
    if_neg (by omega)]
  have hm : m - twoTo 52 + twoTo 52 = m := Nat.sub_add_cancel hlow
  have he : ((k.log2 + 1023 : Nat) : Int) - 1075 = k.log2 - 52 := by omega
  rw [hm, he]

theorem cast_mul_twoTo_log2 {k : Nat} (hlog : k.log2 ≤ 52) :
    ((k * twoTo (52 - k.log2) : Nat) : ℚ) * (2 : ℚ) ^ ((k.log2 : Int) - 52) = k := by
  have hshift : (((52 - k.log2 : Nat) : Int)) = 52 - k.log2 := by omega
  have hup : (twoTo (52 - k.log2) : ℚ) = (2 : ℚ) ^ (52 - (k.log2 : Int)) := by
    rw [← hshift, ← twoTo_cast (Nat.cast_nonneg _), Int.toNat_natCast]
  have hcancel : (52 - (k.log2 : Int)) + (k.log2 - 52) = 0 := by omega
  rw [Nat.cast_mul, hup, mul_assoc, ← zpow_add₀ two_ne_zero, hcancel, zpow_zero, mul_one]

/-- A whole number below two to the power of 53 is a double. -/
theorem ofInt_exact {n : Int} (hlt : n.natAbs < twoTo 53) :
    ∃ b, Binary.ofFloat? (ofInt n) = some b ∧ b.negative = decide (n < 0) ∧
      b.magnitude = n.natAbs := by
  by_cases hn : n = 0
  · subst hn
    refine ⟨⟨false, 0, -1074⟩, by decide +kernel, rfl, ?_⟩
    simp [Binary.magnitude]
  · have hk : n.natAbs ≠ 0 := Int.natAbs_ne_zero.mpr hn
    have hlog : n.natAbs.log2 ≤ 52 := Nat.le_of_lt_succ ((Nat.log2_lt hk).mpr hlt)
    exact ⟨_, ofFloat?_ofInt hn hlt, rfl, cast_mul_twoTo_log2 hlog⟩

/-- The double nearest to a larger whole number is not smaller than that power. -/
theorem le_magnitude_ofInt {n : Int} {b : Binary} (hle : twoTo 53 ≤ n.natAbs)
    (h : Binary.ofFloat? (ofInt n) = some b) : (twoTo 53 : ℚ) ≤ b.magnitude := by
  have hk : n.natAbs ≠ 0 := by
    have := twoTo_pos 53
    omega
  unfold ofInt at h
  rw [ofFloat?_nearest _ _ hk, nearestBits_one hk] at h
  generalize n.natAbs = k at hk hle h
  have hlog : 53 ≤ k.log2 := (Nat.le_log2 hk).mpr hle
  rw [if_pos (by omega)] at h
  have hmantissa : twoTo 52 ≤ nearestWhole k (twoTo (k.log2 - 52)) := by
    have hwidth : 52 + (k.log2 - 52) = k.log2 := by omega
    refine le_trans ?_ (le_nearestWhole _ _)
    rw [Nat.le_div_iff_mul_le (twoTo_pos _), ← twoTo_add, hwidth]
    exact Nat.log2_self_le hk
  generalize nearestWhole k (twoTo (k.log2 - 52)) = m at hmantissa h
  obtain ⟨field, fraction, hfields, hfield, hlast, hfraction⟩ : ∃ field fraction,
      min ((k.log2 + 1022) * twoTo 52 + m) (2047 * twoTo 52) = field * twoTo 52 + fraction ∧
      1076 ≤ field ∧ field ≤ 2047 ∧ fraction < twoTo 52 := by
    rw [twoTo_52] at hmantissa ⊢
    refine ⟨_, _, (Nat.div_add_mod' _ 4503599627370496).symm, ?_, ?_, Nat.mod_lt _ (by decide)⟩
    · omega
    · omega
  rw [hfields, ofBits?_withSign _ (by omega) hlast hfraction] at h
  split at h
  · cases h
  · cases h
    have hexponent : (2 : ℚ) ^ (1 : Int) ≤ (2 : ℚ) ^ ((field : Int) - 1075) :=
      zpow_le_zpow_right₀ one_le_two (by omega)
    have hmantissa : (twoTo 52 : ℚ) ≤ ((fraction + twoTo 52 : Nat) : ℚ) := by
      exact_mod_cast Nat.le_add_left _ _
    calc (twoTo 53 : ℚ) = twoTo 52 * (2 : ℚ) ^ (1 : Int) := by
          rw [show twoTo 53 = twoTo 52 * 2 from rfl, Nat.cast_mul, zpow_one, Nat.cast_ofNat]
      _ ≤ ((fraction + twoTo 52 : Nat) : ℚ) * (2 : ℚ) ^ ((field : Int) - 1075) :=
          mul_le_mul hmantissa hexponent (by positivity) (by positivity)

end GanttChart.Number
