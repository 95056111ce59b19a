import GanttChart.Proofs.Number.Rounding

/-! # Arithmetic of doubles

Sums, products and quotients of finite doubles are rounded from the exact ones, and their order is
that of their values. Whatever is finite was made of finite doubles. -/

namespace GanttChart.Number

open Float.Model (UnpackedFloat Format totalExponent)
open Float.Model.UnpackedFloat (Sign Accuracy ExtendedMantissa)

/-! ## Values -/

/-- The value of a double; none for the infinities and for what is no number. -/
def value? (x : Float) : Option ℚ := unpackedValue? x.toModel.unpack

theorem le_exponent_of_ofFloat? {x : Float} {b : Binary} (h : Binary.ofFloat? x = some b) :
    -1074 ≤ b.exponent := by
  unfold Binary.ofFloat? Binary.ofBits? at h
  dsimp only at h
  split at h
  · cases h
  · split at h
    · cases h
      exact le_refl _
    · cases h
      show -1074 ≤ ((x.toBits.toNat / twoTo 52 % twoTo 11 : ℕ) : ℤ) - 1075
      omega

/-- A double is unpacked to the form that rounding gives. -/
theorem normal_unpack (x : Float) : Normal x.toModel.unpack := by
  have hparts := Binary.ofFloat?_eq x
  cases hunpack : x.toModel.unpack with
  | finite sign m e hm =>
    rw [hunpack] at hparts
    obtain ⟨hmantissa, hfull⟩ := bounds_of_ofFloat? hparts
    exact ⟨hmantissa, le_exponent_of_ofFloat? hparts, hfull⟩
  | _ => trivial

theorem isSome_value? (x : Float) : (value? x).isSome = isFinite x := by
  unfold isFinite value?
  rw [Binary.ofFloat?_eq]
  cases x.toModel.unpack <;> rfl

theorem exists_value? {x : Float} (h : isFinite x = true) : ∃ v, value? x = some v :=
  Option.isSome_iff_exists.mp ((isSome_value? x).trans h)

/-- A mantissa of fewer than 53 bits is packed and taken apart again. -/
theorem unpack_packComponents_zero (sign : Sign) {m : ℕ} (hlt : m < twoTo 52) (hm : 0 < m) :
    UnpackedFloat.unpack .binary64
      (UnpackedFloat.packComponents .binary64 sign 0#_ (.ofNat _ m)) =
      .finite sign m (-1074) hm := by
  have hmantissa : (BitVec.ofNat 52 m).toNat = m := by
    rw [BitVec.toNat_ofNat]
    exact Nat.mod_eq_of_lt hlt
  have hnonzero : BitVec.ofNat 52 m ≠ 0#52 := by
    intro h
    have hnat : m = 0 := hmantissa.symm.trans (congrArg BitVec.toNat h)
    omega
  unfold UnpackedFloat.unpack
  simp only [UnpackedFloat.unpackExponent_packComponents,
    UnpackedFloat.unpackMantissa_packComponents, UnpackedFloat.unpackSign_packComponents,
    Sign.ofBitVec_toBitVec]
  rw [if_neg (by decide), if_pos trivial, dif_neg hnonzero]
  simp only [hmantissa]
  rfl

/-- What is packed is unpacked again, if it is not too large for a double. -/
theorem unpack_pack {u : UnpackedFloat} (hu : Normal u) :
    UnpackedFloat.unpack .binary64 (UnpackedFloat.pack .binary64 u) = u ∨
      unpackedValue? (UnpackedFloat.unpack .binary64 (UnpackedFloat.pack .binary64 u)) = none := by
  cases u with
  | infinity sign => exact .inl (unpack_packedInfinity sign)
  | notANumber => exact .inl rfl
  | zero sign => cases sign <;> exact .inl rfl
  | finite sign m e hm =>
    obtain ⟨hmantissa, he, hfull⟩ := hu
    by_cases hlow : twoTo 52 ≤ m
    · have hlog : m.log2 = 52 := (Nat.log2_eq_iff hm.ne').mpr ⟨hlow, hmantissa⟩
      rw [pack_finite sign e hlog hm]
      split
      · rw [unpack_packedInfinity]
        exact .inr rfl
      · rw [unpack_packComponents sign hlog (by omega) (by omega) hm]
        left
        congr 1
        omega
    · obtain rfl := hfull.resolve_left hlow
      have hlog : m.log2 < 52 := (Nat.log2_lt hm.ne').mpr (Nat.not_le.mp hlow)
      have hbits : m.log2 + 1 ≠ Format.binary64.mantissaBits := by
        show m.log2 + 1 ≠ 53
        omega
      have hpack : UnpackedFloat.pack .binary64 (.finite sign m (-1074) hm) =
          UnpackedFloat.packComponents .binary64 sign 0#_ (.ofNat _ m) := by
        unfold UnpackedFloat.pack
        dsimp only
        rw [if_neg (by decide), if_neg hbits]
      rw [hpack]
      exact .inl (unpack_packComponents_zero sign (Nat.not_le.mp hlow) hm)

/-- A finite double that an unpacked one is packed into has its value. -/
theorem value?_of_toModel {x : Float} {u : UnpackedFloat} {v : ℚ} (hx : x.toModel = .pack u)
    (hu : Normal u) (h : value? x = some v) : unpackedValue? u = some v := by
  have hunpack : x.toModel.unpack = UnpackedFloat.unpack .binary64
      (UnpackedFloat.pack .binary64 u) := by
    rw [hx]
    rfl
  rw [value?, hunpack] at h
  rcases unpack_pack hu with hsame | hnone
  · rwa [hsame] at h
  · rw [hnone] at h
    cases h

theorem value_pos {m : ℕ} {e : ℤ} (hm : 0 < m) : (0 : ℚ) < m * 2 ^ e :=
  mul_pos (by exact_mod_cast hm) (zpow_pos two_pos e)

/-! ## Sums -/

theorem rounds_zero : Rounds 0 0 :=
  ⟨0, -1074, by simp, le_refl _, .inl (by rw [sub_self, abs_zero]; positivity), .inl rfl⟩

/-- A whole mantissa is brought to the right number of bits first, whether it has more or fewer. -/
theorem roundsTo_round (sign : Sign) {m : ℕ} (e : ℤ) (hm : 0 < m) :
    RoundsTo (UnpackedFloat.round .binary64 sign m e) (signed sign (m * (2 : ℚ) ^ e)) := by
  obtain ⟨i, hi⟩ : ∃ i : ℕ, i = (e - max ((m.log2 : ℤ) + 1 + e - 53) (-1074)).toNat := ⟨_, rfl⟩
  obtain ⟨k, hk⟩ : ∃ k : ℕ, k = (max ((m.log2 : ℤ) + 1 + e - 53) (-1074) - (e - i)).toNat :=
    ⟨_, rfl⟩
  have hlog := log2_mul_twoTo hm.ne' i
  have hshift : max (((m * twoTo i).log2 : ℤ) + 1 + (e - i) - 53) (-1074) = e - i + k := by omega
  have hvalue : ((m * twoTo i : ℕ) : ℚ) * 2 ^ (e - i) = m * (2 : ℚ) ^ e := by
    rw [zpow_sub₀ two_ne_zero, zpow_natCast, Nat.cast_mul, show (twoTo i : ℚ) = 2 ^ i from
      Nat.cast_pow 2 i]
    field_simp
  have hround := roundsTo_roundWithAccuracy sign (represents_exact (m * twoTo i)) hshift
  rw [hvalue] at hround
  have hdecrease : UnpackedFloat.round .binary64 sign m e =
      UnpackedFloat.roundWithAccuracy .binary64 sign (m * twoTo i) (e - i) .exact := by
    unfold UnpackedFloat.round UnpackedFloat.decreaseExponent
    rw [show Format.binary64.targetExponent (totalExponent m e) =
      max ((m.log2 : ℤ) + 1 + e - 53) (-1074) from rfl]
    dsimp only
    rw [← hi, Nat.shiftLeft_eq]
    rfl
  rw [hdecrease]
  exact hround

theorem roundsTo_normalize (n e : ℤ) (sign : Sign) :
    RoundsTo (UnpackedFloat.normalize .binary64 n e sign) (n * (2 : ℚ) ^ e) := by
  unfold UnpackedFloat.normalize
  rcases Int.lt_trichotomy n 0 with hneg | rfl | hpos
  · rw [compare_lt_iff_lt.mpr hneg]
    have hround := roundsTo_round .negative e (m := (-n).toNat) (by omega)
    have hcast : (((-n).toNat : ℕ) : ℚ) = -n := by
      exact_mod_cast Int.toNat_of_nonneg (by omega : 0 ≤ -n)
    rw [hcast, show signed .negative (-(n : ℚ) * 2 ^ e) = -(-(n : ℚ) * 2 ^ e) from rfl, neg_mul,
      neg_neg] at hround
    exact hround
  · rw [compare_eq_iff_eq.mpr rfl, Int.cast_zero, zero_mul]
    exact ⟨trivial, 0, rfl, rounds_zero⟩
  · rw [compare_gt_iff_gt.mpr hpos]
    have hround := roundsTo_round .positive e (m := n.toNat) (by omega)
    have hcast : ((n.toNat : ℕ) : ℚ) = n := by exact_mod_cast Int.toNat_of_nonneg hpos.le
    rw [hcast] at hround
    exact hround

/-- A value is rounded to itself. -/
theorem rounds_self {u : UnpackedFloat} (hu : Normal u) {v : ℚ} (h : unpackedValue? u = some v) :
    Rounds v v := by
  cases u with
  | infinity sign => cases h
  | notANumber => cases h
  | zero sign =>
    cases h
    exact rounds_zero
  | finite sign m e hm =>
    cases h
    obtain ⟨_, he, hfull⟩ := hu
    refine Rounds.signed ?_ sign
    refine ⟨m, e, by rw [Int.cast_natCast], he, .inl ?_, hfull.symm.imp_right fun hfull => ?_⟩
    · rw [sub_self, abs_zero]
      positivity
    · refine (mul_le_mul_of_nonneg_right ?_ (by positivity)).trans (le_abs_self _)
      exact_mod_cast hfull

theorem apply_mul_zpow (sign : Sign) (m : ℕ) (e : ℤ) :
    (sign.apply m : ℚ) * 2 ^ e = signed sign (m * 2 ^ e) := by
  cases sign with
  | negative =>
    show ((-(m : ℤ) : ℤ) : ℚ) * 2 ^ e = -(m * 2 ^ e)
    push_cast
    ring
  | positive => rfl

/-- Decreasing an exponent keeps the number. -/
theorem decreaseExponent_value (sign : Sign) (m : ℕ) {e e' : ℤ} (h : e' ≤ e) :
    (sign.apply (UnpackedFloat.decreaseExponent m e e').1 : ℚ) * 2 ^ e' =
      signed sign (m * 2 ^ e) := by
  have hsplit : e = ((e - e').toNat : ℤ) + e' := by omega
  rw [apply_mul_zpow, UnpackedFloat.decreaseExponent, Nat.shiftLeft_eq]
  congr 1
  conv_rhs => rw [hsplit, zpow_add₀ two_ne_zero, zpow_natCast]
  push_cast
  ring

theorem unpacked_add {u w : UnpackedFloat} (hu : Normal u) (hw : Normal w) :
    Normal (UnpackedFloat.add .binary64 u w) ∧
      ∀ v, unpackedValue? (UnpackedFloat.add .binary64 u w) = some v →
        ∃ a b, unpackedValue? u = some a ∧ unpackedValue? w = some b ∧ Rounds (a + b) v := by
  cases u with
  | notANumber => cases w <;> exact ⟨trivial, fun _ h => nomatch h⟩
  | infinity sign =>
    cases w with
    | infinity sign' => cases sign <;> cases sign' <;> exact ⟨trivial, fun _ h => nomatch h⟩
    | _ => exact ⟨trivial, fun _ h => nomatch h⟩
  | zero sign =>
    cases w with
    | zero sign' =>
      have hzero : Rounds (0 + 0) 0 := by rw [add_zero]; exact rounds_zero
      cases sign <;> cases sign' <;>
        exact ⟨trivial, fun v h => ⟨0, 0, rfl, rfl, Option.some.inj h ▸ hzero⟩⟩
    | finite sign' m e hm =>
      refine ⟨hw, fun v h => ⟨0, v, rfl, h, ?_⟩⟩
      rw [zero_add]
      exact rounds_self hw h
    | _ => exact ⟨trivial, fun _ h => nomatch h⟩
  | finite sign m e hm =>
    cases w with
    | zero sign' =>
      refine ⟨hu, fun v h => ⟨v, 0, h, rfl, ?_⟩⟩
      rw [add_zero]
      exact rounds_self hu h
    | finite sign' m' e' hm' =>
      have hround := roundsTo_normalize
        (sign.apply (UnpackedFloat.decreaseExponent m e (min e e')).1 +
          sign'.apply (UnpackedFloat.decreaseExponent m' e' (min e e')).1) (min e e') .positive
      rw [Int.cast_add, add_mul, decreaseExponent_value _ _ (min_le_left _ _),
        decreaseExponent_value _ _ (min_le_right _ _)] at hround
      exact ⟨hround.1, fun v h => ⟨_, _, rfl, rfl, hround.rounds h⟩⟩
    | _ => exact ⟨trivial, fun _ h => nomatch h⟩

theorem add_rounds {x y : Float} {v : ℚ} (h : value? (x + y) = some v) :
    ∃ a b, value? x = some a ∧ value? y = some b ∧ Rounds (a + b) v := by
  obtain ⟨hnormal, hvalue⟩ := unpacked_add (normal_unpack x) (normal_unpack y)
  exact hvalue v (value?_of_toModel rfl hnormal h)

/-! ## Products -/

theorem signed_mul (sign sign' : Sign) (p q : ℚ) :
    signed (sign * sign') (p * q) = signed sign p * signed sign' q := by
  cases sign <;> cases sign'
  · exact (neg_mul_neg p q).symm
  · exact (neg_mul p q).symm
  · exact (mul_neg p q).symm
  · rfl

theorem unpacked_mul {u w : UnpackedFloat} (hu : Normal u) (hw : Normal w) :
    Normal (UnpackedFloat.mul .binary64 u w) ∧
      ∀ v, unpackedValue? (UnpackedFloat.mul .binary64 u w) = some v →
        ∃ a b, unpackedValue? u = some a ∧ unpackedValue? w = some b ∧ Rounds (a * b) v := by
  cases u with
  | notANumber => cases w <;> exact ⟨trivial, fun _ h => nomatch h⟩
  | infinity sign => cases w <;> exact ⟨trivial, fun _ h => nomatch h⟩
  | zero sign =>
    cases w with
    | zero sign' =>
      refine ⟨trivial, fun v h => ⟨0, 0, rfl, rfl, ?_⟩⟩
      rw [mul_zero, ← Option.some.inj h]
      exact rounds_zero
    | finite sign' m e hm =>
      refine ⟨trivial, fun v h => ⟨0, _, rfl, rfl, ?_⟩⟩
      rw [zero_mul, ← Option.some.inj h]
      exact rounds_zero
    | _ => exact ⟨trivial, fun _ h => nomatch h⟩
  | finite sign m e hm =>
    cases w with
    | zero sign' =>
      refine ⟨trivial, fun v h => ⟨_, 0, rfl, rfl, ?_⟩⟩
      rw [mul_zero, ← Option.some.inj h]
      exact rounds_zero
    | finite sign' m' e' hm' =>
      obtain ⟨_, he, hfull⟩ := hu
      obtain ⟨_, he', hfull'⟩ := hw
      -- one of the mantissas has all bits, or the product is below everything
      have hwide : 52 ≤ (m * m').log2 ∨ e + e' ≤ -1074 := by
        have hpos : m * m' ≠ 0 := Nat.mul_ne_zero hm.ne' hm'.ne'
        rcases hfull with hfull | rfl
        · exact .inl ((Nat.le_log2 hpos).mpr (hfull.trans (Nat.le_mul_of_pos_right m hm')))
        · rcases hfull' with hfull' | rfl
          · exact .inl ((Nat.le_log2 hpos).mpr (hfull'.trans (Nat.le_mul_of_pos_left m' hm)))
          · exact .inr (by decide)
      obtain ⟨k, hk⟩ : ∃ k : ℕ, max (((m * m').log2 : ℤ) + 1 + (e + e') - 53) (-1074) =
          e + e' + k := ⟨(max (((m * m').log2 : ℤ) + 1 + (e + e') - 53) (-1074) - (e + e')).toNat,
        by omega⟩
      have hround := roundsTo_roundWithAccuracy (sign * sign') (represents_exact (m * m')) hk
      rw [zpow_add₀ two_ne_zero, Nat.cast_mul, mul_mul_mul_comm, signed_mul] at hround
      exact ⟨hround.1, fun v h => ⟨_, _, rfl, rfl, hround.rounds h⟩⟩
    | _ => exact ⟨trivial, fun _ h => nomatch h⟩

theorem mul_rounds {x y : Float} {v : ℚ} (h : value? (x * y) = some v) :
    ∃ a b, value? x = some a ∧ value? y = some b ∧ Rounds (a * b) v := by
  obtain ⟨hnormal, hvalue⟩ := unpacked_mul (normal_unpack x) (normal_unpack y)
  exact hvalue v (value?_of_toModel rfl hnormal h)

/-! ## Quotients -/

/-- Dividing shifts the dividend far enough to the left that the quotient has all bits, or the
result has the least exponent. -/
theorem divCore_spec {m m' : ℕ} (e e' : ℤ) (hm : 0 < m) (hm' : 0 < m') :
    ∃ (i k : ℕ) (t : ℤ), e - e' = t + i ∧
      UnpackedFloat.divCore .binary64 m e m' e' =
        (m * twoTo i / m', t, UnpackedFloat.accuracyOfFraction (m * twoTo i % m') m') ∧
      max (((m * twoTo i / m').log2 : ℤ) + 1 + t - 53) (-1074) = t + k := by
  obtain ⟨t, ht⟩ : ∃ t : ℤ,
      t = min (e - e') (max ((m.log2 : ℤ) + e - (m'.log2 + e') - 53) (-1074)) := ⟨_, rfl⟩
  obtain ⟨i, hi⟩ : ∃ i : ℕ, i = (e - e' - t).toNat := ⟨_, rfl⟩
  have hwide : t ≤ -1074 ∨ 52 ≤ (m * twoTo i / m').log2 := by
    by_cases hleast : t ≤ -1074
    · exact .inl hleast
    · have hbits : 52 + (m'.log2 + 1) ≤ m.log2 + i := by omega
      have hfull : twoTo 52 ≤ m * twoTo i / m' := by
        rw [Nat.le_div_iff_mul_le hm']
        calc twoTo 52 * m' ≤ twoTo 52 * twoTo (m'.log2 + 1) :=
              Nat.mul_le_mul_left _ Nat.lt_log2_self.le
          _ ≤ twoTo m.log2 * twoTo i := by
              rw [← twoTo_add, ← twoTo_add]
              exact Nat.pow_le_pow_right two_pos hbits
          _ ≤ m * twoTo i := Nat.mul_le_mul_right _ (Nat.log2_self_le hm.ne')
      have hpos := (twoTo_pos 52).trans_le hfull
      exact .inr ((Nat.le_log2 hpos.ne').mpr hfull)
  obtain ⟨k, hk⟩ : ∃ k : ℕ, k = (max (((m * twoTo i / m').log2 : ℤ) + 1 + t - 53) (-1074)
    - t).toNat := ⟨_, rfl⟩
  have htarget : min (e - e') (Format.binary64.targetExponent
      (totalExponent m e - totalExponent m' e')) = t := by
    show min (e - e') (max ((m.log2 : ℤ) + 1 + e - (m'.log2 + 1 + e') - 53) (-1074)) = t
    omega
  refine ⟨i, k, t, by omega, ?_, by omega⟩
  unfold UnpackedFloat.divCore
  rw [htarget]
  dsimp only
  rw [← hi, Nat.shiftLeft_eq]
  rfl

/-- The quotient and its rest together are the exact quotient. -/
theorem quotient_value (m : ℕ) {m' i : ℕ} {e e' t : ℤ} (hm' : 0 < m') (hi : e - e' = t + i) :
    (((m * twoTo i / m' : ℕ) : ℚ) + (m * twoTo i % m' : ℕ) / m') * 2 ^ t =
      m * 2 ^ e / (m' * 2 ^ e') := by
  have hdivision : (m' : ℚ) * (m * twoTo i / m' : ℕ) + (m * twoTo i % m' : ℕ) = m * 2 ^ i := by
    exact_mod_cast Nat.div_add_mod (m * twoTo i) m'
  have hne : (m' : ℚ) ≠ 0 := by exact_mod_cast hm'.ne'
  have hexponent : e = t + i + e' := by omega
  calc (((m * twoTo i / m' : ℕ) : ℚ) + (m * twoTo i % m' : ℕ) / m') * 2 ^ t =
        m * 2 ^ i / m' * 2 ^ t := by
        rw [← hdivision]
        field_simp
    _ = m * 2 ^ e / (m' * 2 ^ e') := by
        rw [hexponent, zpow_add₀ two_ne_zero, zpow_add₀ two_ne_zero, zpow_natCast]
        field_simp

theorem signed_div (sign sign' : Sign) (p q : ℚ) :
    signed (sign / sign') (p / q) = signed sign p / signed sign' q := by
  cases sign <;> cases sign'
  · exact (neg_div_neg_eq p q).symm
  · exact (neg_div q p).symm
  · exact (div_neg p).symm
  · rfl

theorem unpacked_div {u w : UnpackedFloat} {b : ℚ} (hw : unpackedValue? w = some b) :
    Normal (UnpackedFloat.div .binary64 u w) ∧
      ∀ v, unpackedValue? (UnpackedFloat.div .binary64 u w) = some v →
        ∃ a, unpackedValue? u = some a ∧ b ≠ 0 ∧ Rounds (a / b) v := by
  cases w with
  | notANumber => cases hw
  | infinity sign' => cases hw
  | zero sign' => cases u <;> exact ⟨trivial, fun _ h => nomatch h⟩
  | finite sign' m' e' hm' =>
    cases hw
    have hne : signed sign' (m' * (2 : ℚ) ^ e') ≠ 0 := by
      have hpos := value_pos (e := e') hm'
      cases sign' with
      | negative => exact neg_ne_zero.mpr hpos.ne'
      | positive => exact hpos.ne'
    cases u with
    | notANumber => exact ⟨trivial, fun _ h => nomatch h⟩
    | infinity sign => exact ⟨trivial, fun _ h => nomatch h⟩
    | zero sign =>
      refine ⟨trivial, fun v h => ⟨0, rfl, hne, ?_⟩⟩
      rw [zero_div, ← Option.some.inj h]
      exact rounds_zero
    | finite sign m e hm =>
      obtain ⟨i, k, t, hi, hcore, hk⟩ := divCore_spec e e' hm hm'
      have hround := roundsTo_roundWithAccuracy (sign / sign')
        (represents_fraction (m * twoTo i / m') (Nat.mod_lt (m * twoTo i) hm')) hk
      have hdiv : UnpackedFloat.div .binary64 (.finite sign m e hm) (.finite sign' m' e' hm') =
          UnpackedFloat.roundWithAccuracy .binary64 (sign / sign') (m * twoTo i / m') t
            (UnpackedFloat.accuracyOfFraction (m * twoTo i % m') m') := by
        show UnpackedFloat.roundWithAccuracy .binary64 _
          (UnpackedFloat.divCore .binary64 m e m' e').1
          (UnpackedFloat.divCore .binary64 m e m' e').2.1
          (UnpackedFloat.divCore .binary64 m e m' e').2.2 = _
        rw [hcore]
      rw [quotient_value m hm' hi, signed_div] at hround
      rw [hdiv]
      exact ⟨hround.1, fun v h => ⟨_, rfl, hne, hround.rounds h⟩⟩

theorem div_rounds {x y : Float} {b v : ℚ} (hy : value? y = some b) (h : value? (x / y) = some v) :
    ∃ a, value? x = some a ∧ b ≠ 0 ∧ Rounds (a / b) v := by
  obtain ⟨hnormal, hvalue⟩ := unpacked_div (u := x.toModel.unpack) hy
  exact hvalue v (value?_of_toModel rfl hnormal h)

/-! ## Order -/

/-- A larger exponent makes a larger number, since its mantissa is full. -/
theorem Canonical.lt_of_exponent_lt {m m' : ℕ} {e e' : ℤ} (h : Canonical m e)
    (h' : Canonical m' e') (hlt : e < e') : (m : ℚ) * 2 ^ e < m' * 2 ^ e' := by
  obtain ⟨hm, he, _⟩ := h
  obtain ⟨_, _, hfull⟩ := h'
  have hm' : twoTo 52 ≤ m' := hfull.resolve_right (by omega)
  have hm : (m : ℚ) < 2 ^ 53 := by exact_mod_cast hm
  have hm' : (2 : ℚ) ^ 52 ≤ m' := by exact_mod_cast hm'
  have hstep : (2 : ℚ) ^ (e + 1) ≤ 2 ^ e' := zpow_le_zpow_right₀ one_le_two (by omega)
  calc (m : ℚ) * 2 ^ e < 2 ^ 53 * 2 ^ e := mul_lt_mul_of_pos_right hm (by positivity)
    _ = 2 ^ 52 * 2 ^ (e + 1) := by rw [zpow_add_one₀ two_ne_zero]; ring
    _ ≤ m' * 2 ^ e' := mul_le_mul hm' hstep (by positivity) (by positivity)

theorem compare_canonical {m m' : ℕ} {e e' : ℤ} (h : Canonical m e) (h' : Canonical m' e') :
    (compare e e').then (compare m m') = compare ((m : ℚ) * 2 ^ e) (m' * 2 ^ e') := by
  rcases Int.lt_trichotomy e e' with hlt | rfl | hgt
  · rw [compare_lt_iff_lt.mpr hlt, compare_lt_iff_lt.mpr (h.lt_of_exponent_lt h' hlt)]
    rfl
  · have hscale : (0 : ℚ) < 2 ^ e := by positivity
    rw [compare_eq_iff_eq.mpr rfl]
    show compare m m' = _
    rcases Nat.lt_trichotomy m m' with hlt | rfl | hgt
    · rw [compare_lt_iff_lt.mpr hlt, compare_lt_iff_lt.mpr]
      exact mul_lt_mul_of_pos_right (by exact_mod_cast hlt) hscale
    · rw [compare_eq_iff_eq.mpr rfl, compare_eq_iff_eq.mpr rfl]
    · rw [compare_gt_iff_gt.mpr hgt, compare_gt_iff_gt.mpr]
      exact mul_lt_mul_of_pos_right (by exact_mod_cast hgt) hscale
  · rw [compare_gt_iff_gt.mpr hgt, compare_gt_iff_gt.mpr (h'.lt_of_exponent_lt h hgt)]
    rfl

theorem compare_neg_neg (a b : ℚ) : compare (-a) (-b) = compare b a := by
  rcases lt_trichotomy b a with hlt | rfl | hgt
  · rw [compare_lt_iff_lt.mpr hlt, compare_lt_iff_lt.mpr (neg_lt_neg hlt)]
  · rw [compare_eq_iff_eq.mpr rfl, compare_eq_iff_eq.mpr rfl]
  · rw [compare_gt_iff_gt.mpr hgt, compare_gt_iff_gt.mpr (neg_lt_neg hgt)]

/-- Unpacked doubles are compared by their values. -/
theorem unpacked_compare {u w : UnpackedFloat} {a b : ℚ} (hu : Normal u) (hw : Normal w)
    (ha : unpackedValue? u = some a) (hb : unpackedValue? w = some b) :
    UnpackedFloat.compare u w = some (compare a b) := by
  cases u with
  | notANumber => cases ha
  | infinity sign => cases ha
  | zero sign =>
    cases ha
    cases w with
    | notANumber => cases hb
    | infinity sign' => cases hb
    | zero sign' =>
      cases hb
      rw [compare_eq_iff_eq.mpr rfl]
      rfl
    | finite sign' m e hm =>
      cases hb
      cases sign' with
      | positive => exact congrArg some (compare_lt_iff_lt.mpr (value_pos hm)).symm
      | negative =>
        exact congrArg some (compare_gt_iff_gt.mpr (neg_neg_of_pos (value_pos hm))).symm
  | finite sign m e hm =>
    cases ha
    have hpos := value_pos (e := e) hm
    cases w with
    | notANumber => cases hb
    | infinity sign' => cases hb
    | zero sign' =>
      cases hb
      cases sign with
      | positive => exact congrArg some (compare_gt_iff_gt.mpr hpos).symm
      | negative => exact congrArg some (compare_lt_iff_lt.mpr (neg_neg_of_pos hpos)).symm
    | finite sign' m' e' hm' =>
      cases hb
      have hpos' := value_pos (e := e') hm'
      cases sign <;> cases sign'
      · show some ((compare e e').then (compare m m')).swap =
          some (compare (-((m : ℚ) * 2 ^ e)) (-(m' * 2 ^ e')))
        rw [compare_canonical hu hw, compare_neg_neg, ← Std.OrientedOrd.eq_swap]
      · exact congrArg some (compare_lt_iff_lt.mpr ((neg_neg_of_pos hpos).trans hpos')).symm
      · exact congrArg some (compare_gt_iff_gt.mpr ((neg_neg_of_pos hpos').trans hpos)).symm
      · exact congrArg some (compare_canonical hu hw)

theorem lt_iff {x y : Float} {a b : ℚ} (hx : value? x = some a) (hy : value? y = some b) :
    x < y ↔ a < b := by
  have hlt : x < y ↔ UnpackedFloat.lt x.toModel.unpack y.toModel.unpack = true :=
    ⟨of_decide_eq_true, decide_eq_true⟩
  rw [hlt, UnpackedFloat.lt, unpacked_compare (normal_unpack x) (normal_unpack y) hx hy,
    beq_iff_eq, Option.some.injEq, compare_lt_iff_lt]

theorem le_iff {x y : Float} {a b : ℚ} (hx : value? x = some a) (hy : value? y = some b) :
    x ≤ y ↔ a ≤ b := by
  have hle : x ≤ y ↔ UnpackedFloat.le x.toModel.unpack y.toModel.unpack = true :=
    ⟨of_decide_eq_true, decide_eq_true⟩
  rw [hle, UnpackedFloat.le, unpacked_compare (normal_unpack x) (normal_unpack y) hx hy,
    Option.any_some]
  exact Ordering.isLE_iff_ne_gt.trans compare_le_iff_le

theorem not_lt_of_lt {x y : Float} (hx : isFinite x = true) (hy : isFinite y = true) (h : x < y) :
    ¬ y < x := by
  obtain ⟨a, ha⟩ := exists_value? hx
  obtain ⟨b, hb⟩ := exists_value? hy
  rw [lt_iff ha hb] at h
  rw [lt_iff hb ha]
  exact h.asymm

/-! ## Whole numbers -/

theorem value?_of_ofFloat? {x : Float} {b : Binary} (h : Binary.ofFloat? x = some b) :
    value? x = some (if b.negative then -b.magnitude else b.magnitude) := by
  rw [Binary.ofFloat?_eq] at h
  unfold value?
  cases hunpack : x.toModel.unpack with
  | notANumber =>
    rw [hunpack] at h
    cases h
  | infinity sign =>
    rw [hunpack] at h
    cases h
  | zero sign =>
    rw [hunpack] at h
    cases h
    simp [unpackedValue?, Binary.magnitude]
  | finite sign m e hm =>
    rw [hunpack] at h
    cases h
    rfl

/-- A whole number below two to the power of 53 is the value of its double. -/
theorem value?_ofInt {n : ℤ} (hlt : n.natAbs < twoTo 53) : value? (ofInt n) = some (n : ℚ) := by
  obtain ⟨b, hb, hnegative, hmagnitude⟩ := ofInt_exact hlt
  rw [value?_of_ofFloat? hb, hnegative, hmagnitude, Nat.cast_natAbs]
  by_cases hn : n < 0
  · rw [if_pos (decide_eq_true hn), abs_of_neg hn, Int.cast_neg, neg_neg]
  · rw [if_neg (by simpa using hn), abs_of_nonneg (Int.not_lt.mp hn)]

theorem value?_two : value? 2 = some 2 := by
  have htwo : (2 : Float) = ofInt 2 := by decide +kernel
  rw [htwo, value?_ofInt (by decide)]
  rfl

theorem value?_neg_one : value? (-1) = some (-1) := by
  have hone : (-1 : Float) = ofInt (-1) := by decide +kernel
  rw [hone, value?_ofInt (by decide)]
  rfl

theorem value?_zero : value? 0 = some 0 := rfl

/-! ## Bounds -/

theorem onGrid_of_value? {x : Float} {a : ℚ} (h : value? x = some a) : OnGrid a :=
  (rounds_self (normal_unpack x) h).onGrid

/-- A sum is within a share of two to the power of 53 of the exact one. -/
theorem add_near {x y : Float} {v : ℚ} (h : value? (x + y) = some v) :
    ∃ a b, value? x = some a ∧ value? y = some b ∧ |v - (a + b)| ≤ |a + b| / 2 ^ 53 := by
  obtain ⟨a, b, ha, hb, hround⟩ := add_rounds h
  exact ⟨a, b, ha, hb, hround.abs_sub_le ((onGrid_of_value? ha).add (onGrid_of_value? hb))⟩

theorem isFinite_of_add {x y : Float} (h : isFinite (x + y) = true) :
    isFinite x = true ∧ isFinite y = true := by
  obtain ⟨v, hv⟩ := exists_value? h
  obtain ⟨a, b, ha, hb, _⟩ := add_near hv
  rw [← isSome_value?, ← isSome_value?, ha, hb]
  exact ⟨rfl, rfl⟩

/-- So is the product with a whole number. -/
theorem mul_ofInt_near {x : Float} {n : ℤ} {v : ℚ} (hn : n.natAbs < twoTo 53)
    (h : value? (x * ofInt n) = some v) :
    ∃ a, value? x = some a ∧ |v - a * n| ≤ |a * n| / 2 ^ 53 := by
  obtain ⟨a, b, ha, hb, hround⟩ := mul_rounds h
  obtain rfl : b = n := Option.some.inj (hb.symm.trans (value?_ofInt hn))
  exact ⟨a, ha, hround.abs_sub_le ((onGrid_of_value? ha).mul_int n)⟩

theorem two_mul_near {x : Float} {v : ℚ} (h : value? (2 * x) = some v) :
    ∃ a, value? x = some a ∧ |v - 2 * a| ≤ |2 * a| / 2 ^ 53 := by
  obtain ⟨b, a, hb, ha, hround⟩ := mul_rounds h
  obtain rfl : b = 2 := Option.some.inj (hb.symm.trans value?_two)
  refine ⟨a, ha, hround.abs_sub_le ?_⟩
  rw [mul_comm]
  exact_mod_cast (onGrid_of_value? ha).mul_int 2

/-- A half that is not rounded to nothing is between two fifths and two thirds. -/
theorem half_near {x : Float} {v : ℚ} (hpos : 0 < v) (h : value? (x / 2) = some v) :
    ∃ a, value? x = some a ∧ 2 / 5 * a ≤ v ∧ v ≤ 2 / 3 * a := by
  obtain ⟨a, ha, -, hround⟩ := div_rounds value?_two h
  exact ⟨a, ha, hround.half_bounds (onGrid_of_value? ha) hpos⟩

theorem value_div_nonneg {x y : Float} {a b v : ℚ} (ha : value? x = some a) (hb : value? y = some b)
    (hpos : 0 ≤ a) (hpos' : 0 ≤ b) (h : value? (x / y) = some v) : 0 ≤ v := by
  obtain ⟨a', ha', -, hround⟩ := div_rounds hb h
  cases ha.symm.trans ha'
  exact hround.nonneg (div_nonneg hpos hpos')

theorem half_nonneg {x : Float} {a v : ℚ} (ha : value? x = some a) (hpos : 0 ≤ a)
    (h : value? (x / 2) = some v) : 0 ≤ v :=
  value_div_nonneg ha value?_two hpos two_pos.le h

end GanttChart.Number
