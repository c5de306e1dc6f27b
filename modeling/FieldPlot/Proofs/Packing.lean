import FieldPlot.Proofs.Multiplication

/-!
Binary64 numbers in their 64 bits. A number whose exponent is the one that its format asks for comes
back from its bits, unless this exponent is too large: then the bits are those of an infinity.
-/
namespace FieldPlot.Binary64

open Float.Model UnpackedFloat

theorem unpack_packedInfinity (sign : Sign) :
    UnpackedFloat.unpack Format.binary64 (packedInfinity Format.binary64 sign) = .infinity sign := by
  simp [UnpackedFloat.unpack, packedInfinity]

theorem unpack_subnormal (sign : Sign) {mantissa : BitVec 52} (nonzero : mantissa ≠ 0#52)
    (positive : 0 < mantissa.toNat) :
    UnpackedFloat.unpack Format.binary64 (packComponents Format.binary64 sign 0#11 mantissa) =
      .finite sign mantissa.toNat (-1074) positive := by
  simp [UnpackedFloat.unpack, nonzero, Format.exponentBias]

theorem unpack_normal (sign : Sign) {scale : BitVec 11} (mantissa : BitVec 52)
    (notZero : scale ≠ 0#11) (notTop : scale ≠ 2047#11) (positive : 0 < 2 ^ 52 + mantissa.toNat) :
    UnpackedFloat.unpack Format.binary64 (packComponents Format.binary64 sign scale mantissa) =
      .finite sign (2 ^ 52 + mantissa.toNat) (scale.toNat - 1075) positive := by
  have leading : (1#1 ++ mantissa).toNat = 2 ^ 52 + mantissa.toNat := by
    rw [BitVec.toNat_append, ← Nat.shiftLeft_add_eq_or_of_lt mantissa.isLt]
    rfl
  simp [UnpackedFloat.unpack, notZero, notTop, leading, Format.exponentBias]

theorem toNat_ofNat_eq {width n : Nat} (small : n < 2 ^ width) :
    (BitVec.ofNat width n).toNat = n :=
  (BitVec.toNat_ofNat n width).trans (Nat.mod_eq_of_lt small)

theorem ofNat_ne {width n k : Nat} (small : n < 2 ^ width) (small' : k < 2 ^ width) (other : n ≠ k) :
    BitVec.ofNat width n ≠ BitVec.ofNat width k := by
  intro same
  have values := congrArg BitVec.toNat same
  rw [toNat_ofNat_eq small, toNat_ofNat_eq small'] at values
  exact other values

theorem pack_eq (sign : Sign) {m : Nat} {e : ℤ} (positive : 0 < m) {scale : Nat}
    (amount : e + 1075 = scale) :
    UnpackedFloat.pack Format.binary64 (.finite sign m e positive) =
      if 2047 ≤ scale then packedInfinity Format.binary64 sign
      else if m.log2 = 52 then
        packComponents Format.binary64 sign (BitVec.ofNat 11 scale) (BitVec.ofNat 52 m)
      else packComponents Format.binary64 sign 0#11 (BitVec.ofNat 52 m) := by
  have biased : (e + Format.binary64.exponentBias + Format.binary64.mantissaBitsWithoutImplicit).toNat =
      scale := by
    simp only [Format.exponentBias]
    omega
  have top : 2 ^ Format.binary64.exponentBits ≤ scale + 1 ↔ 2047 ≤ scale :=
    Nat.succ_le_succ_iff
  have full : m.log2 + 1 = Format.binary64.mantissaBits ↔ m.log2 = 52 := by
    simp only [Format.mantissaBits]
    omega
  simp only [UnpackedFloat.pack, biased, top, full]

variable {sign : Sign} {m : Nat} {e : ℤ}

theorem unpack_pack_of_large (positive : 0 < m) (large : 971 < e) :
    UnpackedFloat.unpack Format.binary64
      (UnpackedFloat.pack Format.binary64 (.finite sign m e positive)) = .infinity sign := by
  obtain ⟨scale, amount⟩ := Int.eq_ofNat_of_zero_le (by omega : 0 ≤ e + 1075)
  rw [pack_eq sign positive amount, if_pos (by omega), unpack_packedInfinity]

theorem unpack_pack {positive : 0 < m} (canonical : Canonical (.finite sign m e positive)) (most : e ≤ 971) :
    UnpackedFloat.unpack Format.binary64
        (UnpackedFloat.pack Format.binary64 (.finite sign m e positive)) =
      .finite sign m e positive := by
  have bits : m.log2 ≤ 52 ∧ -1074 ≤ e ∧ (m.log2 < 52 → e = -1074) := by
    simp only [Canonical, Format.targetExponent, totalExponent, Format.minExponent,
      Format.mantissaBits] at canonical
    omega
  obtain ⟨few, least, subnormal⟩ := bits
  obtain ⟨scale, amount⟩ := Int.eq_ofNat_of_zero_le (by omega : 0 ≤ e + 1075)
  rw [pack_eq sign positive amount, if_neg (by omega)]
  by_cases normal : m.log2 = 52
  · have enough : 2 ^ 52 ≤ m := (Nat.le_log2 positive.ne').mp normal.ge
    have less : m < 2 ^ 53 := (Nat.log2_lt positive.ne').mp (by omega)
    have rest : 2 ^ 52 + (BitVec.ofNat 52 m).toNat = m := by
      rw [BitVec.toNat_ofNat]
      omega
    have exponent : ((BitVec.ofNat 11 scale).toNat : ℤ) - 1075 = e := by
      rw [toNat_ofNat_eq (by omega)]
      omega
    rw [if_pos normal, unpack_normal sign _ (ofNat_ne (by omega) (by decide) (by omega))
      (ofNat_ne (by omega) (by decide) (by omega)) (by omega)]
    simp only [rest, exponent]
  · have small : m < 2 ^ 52 := (Nat.log2_lt positive.ne').mp (by omega)
    have same := toNat_ofNat_eq small
    rw [if_neg normal, unpack_subnormal sign (ofNat_ne small (by decide) positive.ne')
      (by rwa [same])]
    simp only [same, subnormal (by omega)]

end FieldPlot.Binary64
