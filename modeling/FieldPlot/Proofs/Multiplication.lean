import Mathlib

/-!
Binary64 numbers times one. The exact product has 52 significant bits more, all of them zero, and
rounding drops them again: the exponent of every number is the one that its format asks for.
-/
namespace FieldPlot.Binary64

open Float.Model UnpackedFloat

/-- The exponent of a finite number is the one that its format asks for. -/
def Canonical : UnpackedFloat → Prop
  | .finite _ m e _ => Format.binary64.targetExponent (totalExponent m e) = e
  | _ => True

theorem canonical_unpack (b : BitVec Format.binary64.numBits) :
    Canonical (UnpackedFloat.unpack Format.binary64 b) := by
  fun_cases UnpackedFloat.unpack with
  | case1 => trivial
  | case2 => trivial
  | case3 => trivial
  | case4 mantissa scale exponent signBits sign special subnormal nonzero =>
    -- A subnormal number has the least exponent, and too few bits for a larger one.
    have positive : mantissa.toNat ≠ 0 := by
      simpa [← BitVec.toNat_inj] using nonzero
    have small : mantissa.toNat.log2 < 52 := (Nat.log2_lt positive).mpr mantissa.isLt
    have least : exponent = -1075 := by simp [exponent, subnormal, Format.exponentBias]
    simp only [Canonical, Format.targetExponent, totalExponent, Format.minExponent,
      Format.mantissaBits, least]
    omega
  | case5 mantissa scale exponent signBits sign special normal =>
    have leading : (1#1 ++ mantissa).toNat.log2 = 52 := by
      have bound : mantissa.toNat < 2 ^ 52 := mantissa.isLt
      have sum : (1#1 ++ mantissa).toNat = 2 ^ 52 * 1 + mantissa.toNat := by
        rw [Nat.two_pow_add_eq_or_of_lt bound, BitVec.toNat_append, Nat.mul_one]
        rfl
      rw [sum, Nat.log2_eq_iff (by omega)]
      omega
    have positive : scale.toNat ≠ 0 := by
      simpa [← BitVec.toNat_inj] using normal
    have least : -1074 ≤ exponent := by
      simp only [exponent, Format.exponentBias]
      omega
    simp only [Canonical, Format.targetExponent, totalExponent, Format.minExponent,
      Format.mantissaBits, leading]
    omega

theorem log2_mul_two_pow {m : Nat} (positive : m ≠ 0) (n : Nat) :
    (m * 2 ^ n).log2 = m.log2 + n := by
  induction n with
  | zero => rw [Nat.pow_zero, Nat.mul_one, Nat.add_zero]
  | succ n ih =>
    have more : m * 2 ^ n ≠ 0 := Nat.mul_ne_zero positive (by positivity)
    rw [Nat.pow_succ, ← Nat.mul_assoc, Nat.log2_eq_log_two, Nat.log_mul_base Nat.one_lt_two more,
      ← Nat.log2_eq_log_two, ih, Nat.add_assoc]

theorem shiftRight_exact (m n : Nat) :
    (⟨m * 2 ^ n, false, false⟩ : ExtendedMantissa) >>> n = ⟨m, false, false⟩ := by
  induction n generalizing m with
  | zero => simp [HShiftRight.hShiftRight, Nat.repeat]
  | succ n ih =>
    have half := congrArg ExtendedMantissa.shiftRightOne (ih (m * 2))
    rw [Nat.pow_succ', ← Nat.mul_assoc]
    refine half.trans ?_
    simp [ExtendedMantissa.shiftRightOne]

theorem shiftToTargetExponent_exact {m : Nat} (n : Nat) (e : Int) (positive : m ≠ 0)
    (canonical : Format.binary64.targetExponent (totalExponent m e) = e) :
    shiftToTargetExponent Format.binary64 (m * 2 ^ n) (e - n) .exact = (⟨m, false, false⟩, e) := by
  have total : totalExponent (m * 2 ^ n) (e - n) = totalExponent m e := by
    simp only [totalExponent, log2_mul_two_pow positive]
    omega
  have amount : (e - (e - n)).toNat = n := by omega
  simp only [shiftToTargetExponent, shiftToExponent, total, canonical, amount,
    ExtendedMantissa.ofMantissaAndAccuracy, shiftRight_exact, Int.sub_add_cancel]

/-- A number of the format that is written with a longer significand is rounded to itself. -/
theorem roundWithAccuracy_exact (sign : Sign) {m : Nat} (n : Nat) (e : Int) (positive : 0 < m)
    (canonical : Format.binary64.targetExponent (totalExponent m e) = e) :
    roundWithAccuracy Format.binary64 sign (m * 2 ^ n) (e - n) .exact =
      .finite sign m e positive := by
  -- The first shift drops the zeros, and nothing is left for rounding and the second one.
  have first := shiftToTargetExponent_exact n e positive.ne' canonical
  have second := shiftToTargetExponent_exact 0 e positive.ne' canonical
  simp only [Nat.pow_zero, Nat.mul_one, Int.natCast_zero, Int.sub_zero] at second
  simp only [roundWithAccuracy, first, ExtendedMantissa.roundedMantissa, ExtendedMantissa.accuracy,
    Accuracy.roundToNearestEven, second, positive.ne', dite_false]

theorem sign_mul_positive (sign : Sign) : sign * Sign.positive = sign := by
  cases sign with
  | negative => rfl
  | positive => rfl

theorem unpack_one :
    (1 : Float).toModel.unpack = .finite .positive (2 ^ 52) (-52) (by decide) := by
  rfl

theorem mul_unpack_one {u : UnpackedFloat} (canonical : Canonical u) :
    UnpackedFloat.mul Format.binary64 u (1 : Float).toModel.unpack = u := by
  rw [unpack_one]
  cases u with
  | notANumber => rfl
  | infinity sign => simp only [UnpackedFloat.mul, sign_mul_positive]
  | zero sign => simp only [UnpackedFloat.mul, sign_mul_positive]
  | finite sign m e positive =>
    simp only [UnpackedFloat.mul, sign_mul_positive]
    exact roundWithAccuracy_exact sign 52 e positive canonical

/-- Also zeros keep their sign, and what is no number stays none. -/
theorem mul_one (x : Float) : x * 1 = x := by
  have same : (x * 1).toModel.toBits = x.toModel.toBits := by
    have product := mul_unpack_one (canonical_unpack x.toModel.toBits.toBitVec)
    have packed := congrArg (UnpackedFloat.pack Format.binary64) product
    exact UInt64.toBitVec_inj.mp (packed.trans (pack_unpack_of_valid x.toModel.valid))
  exact Float.toBits_inj.mp same

end FieldPlot.Binary64
