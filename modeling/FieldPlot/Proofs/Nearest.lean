import FieldPlot.Decimal.Binary
import FieldPlot.Proofs.Values

/-!
The whole number nearest to a binary64 number. The bits of a finite number mean its value
(`value_eq_ofFloat`), and rounding it to a whole number does not go beyond a whole number.
-/
namespace FieldPlot.Binary64
open Float.Model UnpackedFloat

theorem toNat_unpackMantissa (b : BitVec Format.binary64.numBits) :
    (unpackMantissa b).toNat = b.toNat % 2 ^ 52 := by
  rw [unpackMantissa_def, BitVec.extractLsb'_toNat, Nat.shiftRight_zero]

theorem toNat_unpackExponent (b : BitVec Format.binary64.numBits) :
    (unpackExponent b).toNat = b.toNat / 2 ^ 52 % 2 ^ 11 := by
  rw [unpackExponent_def, BitVec.extractLsb'_toNat, Nat.shiftRight_eq_div_pow]

theorem factor_unpackSign (b : BitVec Format.binary64.numBits) :
    factor (Sign.ofBitVec (unpackSign b)) = if b.toNat / 2 ^ 63 = 1 then -1 else 1 := by
  have small : b.toNat < 2 ^ 64 := b.isLt
  have bit : (unpackSign b).toNat = b.toNat / 2 ^ 63 := by
    rw [unpackSign_def, BitVec.extractLsb'_toNat, Nat.shiftRight_eq_div_pow]
    change b.toNat / 2 ^ 63 % 2 ^ 1 = _
    omega
  have zero : unpackSign b = 0#1 ↔ b.toNat / 2 ^ 63 = 0 := by
    rw [← BitVec.toNat_inj, bit]
    rfl
  unfold Sign.ofBitVec
  by_cases none : b.toNat / 2 ^ 63 = 0
  · rw [if_pos (zero.mpr none), none]
    rfl
  · rw [if_neg (mt zero.mp none), if_pos (by omega)]
    rfl

theorem exact_unpack_of_zero {b : BitVec Format.binary64.numBits} (zero : unpackExponent b = 0#11) :
    exact (UnpackedFloat.unpack Format.binary64 b) =
      factor (Sign.ofBitVec (unpackSign b)) * ((unpackMantissa b).toNat * 2 ^ (-1074 : ℤ)) := by
  by_cases none : unpackMantissa b = 0#52
  · have value : UnpackedFloat.unpack Format.binary64 b =
        .zero (Sign.ofBitVec (unpackSign b)) := by
      simp [UnpackedFloat.unpack, zero, none]
    rw [value, exact_zero, none]
    simp
  · have positive : 0 < (unpackMantissa b).toNat :=
      Nat.pos_of_ne_zero fun same => none (BitVec.toNat_inj.mp same)
    have shape := packComponents_unpackSign_unpackExponent_unpackMantissa b
    rw [zero] at shape
    conv_lhs => rw [← shape]
    rw [unpack_subnormal _ none positive, exact]

theorem exact_unpack_of_normal {b : BitVec Format.binary64.numBits}
    (notZero : unpackExponent b ≠ 0#11) (notTop : unpackExponent b ≠ 2047#11) :
    exact (UnpackedFloat.unpack Format.binary64 b) = factor (Sign.ofBitVec (unpackSign b)) *
      ((2 ^ 52 + (unpackMantissa b).toNat : Nat) * 2 ^ ((unpackExponent b).toNat - 1075 : ℤ)) := by
  have shape := packComponents_unpackSign_unpackExponent_unpackMantissa b
  conv_lhs => rw [← shape]
  rw [unpack_normal _ _ notZero notTop (by omega), exact]

theorem notTop_of_isFinite {b : BitVec Format.binary64.numBits}
    (finite : (UnpackedFloat.unpack Format.binary64 b).isFinite = true) :
    unpackExponent b ≠ 2047#11 := by
  intro top
  by_cases none : unpackMantissa b = 0#52
  · simp [UnpackedFloat.unpack, top, none, UnpackedFloat.isFinite] at finite
  · simp [UnpackedFloat.unpack, top, none, UnpackedFloat.isFinite] at finite

variable {x : Float}

theorem value_eq_ofFloat (finite : x.isFinite = true) :
    value x = (if Decimal.isNegative x then -1 else 1) *
      ((Decimal.Binary.ofFloat x).mantissa * 2 ^ (Decimal.Binary.ofFloat x).exponent) := by
  obtain ⟨b, bits⟩ : ∃ b : BitVec Format.binary64.numBits, x.toModel.toBits.toBitVec = b := ⟨_, rfl⟩
  have number : x.toBits.toNat = b.toNat := congrArg BitVec.toNat bits
  have unpacked : x.toModel.unpack = UnpackedFloat.unpack Format.binary64 b :=
    congrArg (UnpackedFloat.unpack Format.binary64) bits
  have sign : factor (Sign.ofBitVec (unpackSign b)) = if Decimal.isNegative x then -1 else 1 := by
    rw [factor_unpackSign, Decimal.isNegative, number]
    simp
  have fraction := toNat_unpackMantissa b
  have scale : (unpackExponent b).toNat = b.toNat / Nat.pow 2 52 % Nat.pow 2 11 :=
    toNat_unpackExponent b
  rw [value, unpacked, ← sign]
  change (UnpackedFloat.unpack Format.binary64 x.toModel.toBits.toBitVec).isFinite = true at finite
  rw [bits] at finite
  by_cases zero : unpackExponent b = 0#11
  · have none : b.toNat / Nat.pow 2 52 % Nat.pow 2 11 = 0 := by
      rw [← scale, zero]
      rfl
    rw [exact_unpack_of_zero zero, fraction]
    simp only [Decimal.Binary.ofFloat, number, none]
    rfl
  · have some : b.toNat / Nat.pow 2 52 % Nat.pow 2 11 ≠ 0 := by
      rw [← scale]
      exact fun same => zero (BitVec.toNat_inj.mp same)
    rw [exact_unpack_of_normal zero (notTop_of_isFinite finite), fraction, scale]
    simp only [Decimal.Binary.ofFloat, number, some]
    rfl

theorem nearest_within (d : Decimal.Binary) {low high : Nat}
    (lower : (low : ℚ) ≤ d.mantissa * 2 ^ d.exponent)
    (upper : (d.mantissa : ℚ) * 2 ^ d.exponent ≤ high) : low ≤ d.nearest ∧ d.nearest ≤ high := by
  have positive : 0 < Nat.pow 2 (-d.exponent).toNat := Nat.pow_pos two_pos
  have scaled : (d.mantissa : ℚ) * 2 ^ d.exponent * (Nat.pow 2 (-d.exponent).toNat : Nat) =
      (d.mantissa * Nat.pow 2 d.exponent.toNat : Nat) := by
    have exponent : d.exponent + (-d.exponent).toNat = d.exponent.toNat := by omega
    push_cast [Nat.pow_eq]
    rw [mul_assoc, ← zpow_natCast, ← zpow_natCast, ← zpow_add₀ two_ne_zero, exponent]
  unfold Decimal.Binary.nearest
  generalize Nat.pow 2 (-d.exponent).toNat = unit at *
  generalize d.mantissa * Nat.pow 2 d.exponent.toNat = whole at *
  have unitPos : (0 : ℚ) < unit := by exact_mod_cast positive
  have lower : low * unit ≤ whole := by
    have := mul_le_mul_of_nonneg_right lower unitPos.le
    rw [scaled] at this
    exact_mod_cast this
  have upper : whole ≤ high * unit := by
    have := mul_le_mul_of_nonneg_right upper unitPos.le
    rw [scaled] at this
    exact_mod_cast this
  constructor
  · rw [Nat.le_div_iff_mul_le (by omega)]
    linarith
  · rw [← Nat.lt_succ_iff, Nat.div_lt_iff_lt_mul (by omega), Nat.succ_mul]
    linarith

theorem nearestNat_within (finite : x.isFinite = true) {bound low high : Nat}
    (lower : (low : ℚ) ≤ value x) (upper : value x ≤ high) (most : high ≤ bound) :
    low ≤ Decimal.nearestNat bound x ∧ Decimal.nearestNat bound x ≤ high := by
  have size := value_eq_ofFloat finite
  simp only [Decimal.nearestNat, isNaN_of_isFinite finite, isInf_of_isFinite finite, Bool.false_eq_true, if_false]
  by_cases negative : Decimal.isNegative x = true
  · rw [if_pos negative] at size ⊢
    have nonneg : (0 : ℚ) ≤ (Decimal.Binary.ofFloat x).mantissa *
        2 ^ (Decimal.Binary.ofFloat x).exponent := by positivity
    have none : (low : ℚ) ≤ 0 := by linarith
    exact ⟨by exact_mod_cast none, Nat.zero_le _⟩
  · rw [if_neg negative, one_mul] at size
    rw [if_neg negative]
    rw [size] at lower upper
    obtain ⟨least, greatest⟩ := nearest_within _ lower upper
    exact ⟨le_min least ((least.trans greatest).trans most), (min_le_left _ _).trans greatest⟩

end FieldPlot.Binary64
