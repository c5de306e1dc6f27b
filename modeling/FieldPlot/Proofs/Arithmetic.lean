import FieldPlot.Proofs.Packing
import FieldPlot.Proofs.Rounding

/-!
Sums, differences, products and quotients of binary64 numbers. Each is the exact one, rounded
(`RoundsTo`): a closest number of the grid, or infinite where this one is beyond the limit (`Stores`).
-/
namespace FieldPlot.Binary64

open Float.Model UnpackedFloat

theorem decreaseExponent_of_le (m : Nat) {e t : ℤ} (low : e ≤ t) :
    decreaseExponent m e t = (m, e) := by
  have none : (e - t).toNat = 0 := by omega
  simp [decreaseExponent, none]

theorem decreaseExponent_of_ge (m : Nat) {e t : ℤ} (high : t ≤ e) :
    decreaseExponent m e t = (m * 2 ^ (e - t).toNat, t) := by
  have amount : e - (e - t).toNat = t := by omega
  rw [decreaseExponent, Nat.shiftLeft_eq, amount]

theorem shifted_eq (m : ℚ) {e t : ℤ} (high : t ≤ e) : m * 2 ^ (e - t).toNat * 2 ^ t = m * 2 ^ e := by
  have amount : e = (e - t).toNat + t := by omega
  conv_rhs => rw [amount, zpow_add₀ two_ne_zero, zpow_natCast]
  ring

theorem rounds_round (sign : Sign) {m : Nat} (e : ℤ) (positive : 0 < m) :
    Rounds (factor sign * (m * 2 ^ e)) (UnpackedFloat.round Format.binary64 sign m e) := by
  unfold UnpackedFloat.round
  rcases le_total e (Format.binary64.targetExponent (totalExponent m e)) with low | high
  · simp only [decreaseExponent_of_le m low]
    exact rounds_roundWithAccuracy sign (shows_exact m) low
  · -- The shifted significand has the same target exponent.
    simp only [decreaseExponent_of_ge m high]
    have ready : Format.binary64.targetExponent (totalExponent m e) ≤
        Format.binary64.targetExponent (totalExponent
          (m * 2 ^ (e - Format.binary64.targetExponent (totalExponent m e)).toNat)
          (Format.binary64.targetExponent (totalExponent m e))) := by
      rw [targetExponent_eq] at high
      rw [targetExponent_eq, targetExponent_eq, log2_mul_two_pow positive.ne']
      omega
    have rounds := rounds_roundWithAccuracy sign (shows_exact _) ready
    rwa [Nat.cast_mul, Nat.cast_pow, Nat.cast_ofNat, shifted_eq _ high] at rounds

theorem apply_eq (sign : Sign) (k : ℤ) : ((sign.apply k : ℤ) : ℚ) = factor sign * k := by
  cases sign <;> simp [Sign.apply, factor]

theorem factor_mul (sign sign' : Sign) : factor (sign * sign') = factor sign * factor sign' := by
  cases sign <;> cases sign' <;> decide +kernel

theorem factor_mul_self (sign : Sign) : factor sign * factor sign = 1 := by
  cases sign <;> norm_num [factor]

theorem exact_zero (sign : Sign) : exact (.zero sign) = 0 :=
  rfl

theorem onGrid_zero : OnGrid 0 := by
  simpa using onGrid_intCast (k := 0) (by simp)

theorem rounds_zero (sign : Sign) : Rounds 0 (.zero sign) :=
  ⟨rfl, trivial, .of_onGrid onGrid_zero⟩

theorem rounds_normalize (k e : ℤ) (zeroSign : Sign) :
    Rounds (k * 2 ^ e) (UnpackedFloat.normalize Format.binary64 k e zeroSign) := by
  have size {n : ℤ} (nonneg : 0 ≤ n) : ((n.toNat : ℕ) : ℚ) = n := by
    exact_mod_cast Int.toNat_of_nonneg nonneg
  unfold UnpackedFloat.normalize
  rcases lt_trichotomy k 0 with negative | rfl | positive
  · rw [compare_lt_iff_lt.mpr negative]
    have rounds := rounds_round .negative (m := (-k).toNat) e (by omega)
    rw [size (by omega)] at rounds
    simpa [factor] using rounds
  · rw [compare_eq_iff_eq.mpr rfl, Int.cast_zero, zero_mul]
    exact rounds_zero zeroSign
  · rw [compare_gt_iff_gt.mpr positive]
    have rounds := rounds_round .positive (m := k.toNat) e (by omega)
    rw [size positive.le] at rounds
    simpa [factor] using rounds

theorem bounds_of_canonical {sign : Sign} {m : Nat} {e : ℤ} {positive : 0 < m}
    (canonical : Canonical (.finite sign m e positive)) :
    m < 2 ^ 53 ∧ -1074 ≤ e ∧ (-1074 < e → 2 ^ 52 ≤ m) := by
  rw [Canonical, targetExponent_eq] at canonical
  exact ⟨(Nat.log2_lt positive.ne').mp (by omega), by omega,
    fun _ => (Nat.le_log2 positive.ne').mp (by omega)⟩

theorem zero_or_finite {u : UnpackedFloat} (finite : u.isFinite = true) :
    (∃ sign, u = .zero sign) ∨ ∃ sign m e positive, u = .finite sign m e positive := by
  cases u with
  | notANumber => contradiction
  | infinity sign => contradiction
  | zero sign => exact .inl ⟨sign, rfl⟩
  | finite sign m e positive => exact .inr ⟨sign, m, e, positive, rfl⟩

theorem rounds_exact {u : UnpackedFloat} (finite : u.isFinite = true) (canonical : Canonical u) :
    Rounds (exact u) u := by
  refine ⟨finite, canonical, .of_onGrid ?_⟩
  obtain ⟨sign, rfl⟩ | ⟨sign, m, e, positive, rfl⟩ := zero_or_finite finite
  · exact onGrid_zero
  · obtain ⟨small, least, -⟩ := bounds_of_canonical canonical
    refine ⟨sign.apply m, e, ?_, least, ?_⟩
    · cases sign <;> simp [Sign.apply] <;> omega
    · rw [apply_eq, mul_assoc, Int.cast_natCast]
      rfl

theorem factor_neg (sign : Sign) : factor (-sign) = -factor sign := by
  cases sign with
  | negative => exact (neg_neg 1).symm
  | positive => rfl

theorem exact_neg (u : UnpackedFloat) : exact u.neg = -exact u := by
  cases u with
  | notANumber => exact neg_zero.symm
  | infinity sign => exact neg_zero.symm
  | zero sign => exact neg_zero.symm
  | finite sign m e positive => rw [UnpackedFloat.neg, exact, exact, factor_neg, neg_mul]

theorem exact_decreaseExponent (sign : Sign) (m : Nat) {e t : ℤ} (positive : 0 < m) (low : t ≤ e) :
    ((sign.apply (decreaseExponent m e t).1 : ℤ) : ℚ) * 2 ^ t =
      exact (.finite sign m e positive) := by
  rw [exact, decreaseExponent_of_ge m low, apply_eq, mul_assoc, Int.cast_natCast, Nat.cast_mul,
    Nat.cast_pow, Nat.cast_ofNat, shifted_eq _ low]

variable {u v : UnpackedFloat}

theorem rounds_add (finite : u.isFinite = true) (canonical : Canonical u)
    (finite' : v.isFinite = true) (canonical' : Canonical v) :
    Rounds (exact u + exact v) (UnpackedFloat.add Format.binary64 u v) := by
  have left := rounds_exact finite canonical
  have right := rounds_exact finite' canonical'
  obtain ⟨sign, rfl⟩ | ⟨sign, m, e, positive, rfl⟩ := zero_or_finite finite
  · rw [exact_zero, zero_add]
    obtain ⟨sign', rfl⟩ | ⟨sign', m', e', positive', rfl⟩ := zero_or_finite finite'
    · simp only [UnpackedFloat.add]
      split
      · exact rounds_zero sign
      · exact rounds_zero .positive
    · exact right
  · obtain ⟨sign', rfl⟩ | ⟨sign', m', e', positive', rfl⟩ := zero_or_finite finite'
    · rw [exact_zero, add_zero]
      exact left
    · rw [← exact_decreaseExponent sign m positive (min_le_left e e'),
        ← exact_decreaseExponent sign' m' positive' (min_le_right e e'), ← add_mul, ← Int.cast_add]
      exact rounds_normalize _ _ .positive

theorem sub_eq_add (u v : UnpackedFloat) :
    UnpackedFloat.sub Format.binary64 u v = UnpackedFloat.add Format.binary64 u v.neg := by
  have apply (sign : Sign) (k : ℤ) : (-sign).apply k = -sign.apply k := by
    cases sign with
    | negative => exact (neg_neg k).symm
    | positive => rfl
  rcases u with s | _ | s | ⟨s, m, e, positive⟩ <;>
    rcases v with s' | _ | s' | ⟨s', m', e', positive'⟩ <;>
    first | rfl
          | simp only [UnpackedFloat.sub, UnpackedFloat.add, UnpackedFloat.neg, apply,
              Int.sub_eq_add_neg]

theorem rounds_sub (finite : u.isFinite = true) (canonical : Canonical u)
    (finite' : v.isFinite = true) (canonical' : Canonical v) :
    Rounds (exact u - exact v) (UnpackedFloat.sub Format.binary64 u v) := by
  have still : v.neg.isFinite = true ∧ Canonical v.neg := by
    cases v with
    | notANumber => contradiction
    | infinity sign => contradiction
    | zero sign => exact ⟨rfl, trivial⟩
    | finite sign m e positive => exact ⟨rfl, canonical'⟩
  rw [sub_eq_add, sub_eq_add_neg, ← exact_neg]
  exact rounds_add finite canonical still.1 still.2

theorem ready_of_canonical {m m' : Nat} {e e' : ℤ} {sign sign' : Sign} {positive : 0 < m}
    {positive' : 0 < m'} (canonical : Canonical (.finite sign m e positive))
    (canonical' : Canonical (.finite sign' m' e' positive')) :
    e + e' ≤ Format.binary64.targetExponent (totalExponent (m * m') (e + e')) := by
  have grows {k : Nat} (more : 0 < k) (le : k ≤ m * m') : k.log2 ≤ (m * m').log2 :=
    (Nat.le_log2 (by positivity)).mpr ((Nat.log2_self_le more.ne').trans le)
  have left := grows positive (Nat.le_mul_of_pos_right m positive')
  have right := grows positive' (Nat.le_mul_of_pos_left m' positive)
  rw [Canonical, targetExponent_eq] at canonical canonical'
  rw [targetExponent_eq]
  omega

theorem rounds_mul (finite : u.isFinite = true) (canonical : Canonical u)
    (finite' : v.isFinite = true) (canonical' : Canonical v) :
    Rounds (exact u * exact v) (UnpackedFloat.mul Format.binary64 u v) := by
  obtain ⟨sign, rfl⟩ | ⟨sign, m, e, positive, rfl⟩ := zero_or_finite finite
  · rw [exact_zero, zero_mul]
    obtain ⟨sign', rfl⟩ | ⟨sign', m', e', positive', rfl⟩ := zero_or_finite finite'
    · exact rounds_zero _
    · exact rounds_zero _
  · obtain ⟨sign', rfl⟩ | ⟨sign', m', e', positive', rfl⟩ := zero_or_finite finite'
    · rw [exact_zero, mul_zero]
      exact rounds_zero _
    · have rounds := rounds_roundWithAccuracy (sign * sign') (shows_exact (m * m'))
        (ready_of_canonical canonical canonical')
      have product : exact (.finite sign m e positive) * exact (.finite sign' m' e' positive') =
          factor (sign * sign') * (((m * m' : Nat) : ℚ) * 2 ^ (e + e')) := by
        rw [exact, exact, factor_mul, zpow_add₀ two_ne_zero]
        push_cast
        ring
      rw [product]
      exact rounds

theorem factor_div (sign sign' : Sign) : factor (sign / sign') = factor sign / factor sign' := by
  cases sign <;> cases sign' <;> decide +kernel

theorem exact_divCore {m m' n : Nat} {e e' t : ℤ} (positive' : 0 < m') (amount : e - e' = t + n) :
    (((m * 2 ^ n / m' : Nat) : ℚ) + ((m * 2 ^ n % m' : Nat) : ℚ) / m') * 2 ^ t =
      m * 2 ^ e / (m' * 2 ^ e') := by
  have nonzero : (m' : ℚ) ≠ 0 := by exact_mod_cast positive'.ne'
  have parts : ((m' * (m * 2 ^ n / m') + m * 2 ^ n % m' : Nat) : ℚ) = m * 2 ^ n := by
    exact_mod_cast Nat.div_add_mod (m * 2 ^ n) m'
  have power : (2 : ℚ) ^ e = 2 ^ n * 2 ^ t * 2 ^ e' := by
    rw [← zpow_natCast, ← zpow_add₀ two_ne_zero, ← zpow_add₀ two_ne_zero]
    congr 1
    omega
  push_cast at parts
  rw [power]
  field_simp
  linarith

theorem ready_of_divCore {m m' n : Nat} {e e' t : ℤ} (positive : 0 < m) (positive' : 0 < m')
    (amount : e - e' = t + n) (low : t ≤ max (m.log2 + e - (m'.log2 + e') - 53) (-1074)) :
    t ≤ Format.binary64.targetExponent (totalExponent (m * 2 ^ n / m') t) := by
  rw [targetExponent_eq]
  by_cases least : t ≤ -1074
  · omega
  · -- The dividend is longer than the divisor by as many bits as the quotient needs.
    have longer : 52 + (m'.log2 + 1) ≤ m.log2 + n := by omega
    have enough : 2 ^ 52 * m' ≤ m * 2 ^ n := by
      calc 2 ^ 52 * m' ≤ 2 ^ 52 * 2 ^ (m'.log2 + 1) := Nat.mul_le_mul_left _ Nat.lt_log2_self.le
        _ = 2 ^ (52 + (m'.log2 + 1)) := (pow_add 2 _ _).symm
        _ ≤ 2 ^ (m.log2 + n) := Nat.pow_le_pow_right two_pos longer
        _ = 2 ^ m.log2 * 2 ^ n := pow_add 2 _ _
        _ ≤ m * 2 ^ n := Nat.mul_le_mul_right _ (Nat.log2_self_le positive.ne')
    have quotient := (Nat.le_div_iff_mul_le positive').mpr enough
    have many := (Nat.le_log2 (by omega)).mpr quotient
    omega

theorem rounds_div (finite : u.isFinite = true) (finite' : v.isFinite = true)
    (nonzero : exact v ≠ 0) :
    Rounds (exact u / exact v) (UnpackedFloat.div Format.binary64 u v) := by
  obtain ⟨sign', rfl⟩ | ⟨sign', m', e', positive', rfl⟩ := zero_or_finite finite'
  · contradiction
  · obtain ⟨sign, rfl⟩ | ⟨sign, m, e, positive, rfl⟩ := zero_or_finite finite
    · rw [exact_zero, zero_div]
      exact rounds_zero _
    · obtain ⟨t, target⟩ : ∃ t, min (e - e')
        (Format.binary64.targetExponent (totalExponent m e - totalExponent m' e')) = t := ⟨_, rfl⟩
      obtain ⟨n, amount⟩ := Int.le.dest (target ▸ min_le_left _ _ : t ≤ e - e')
      have low : t ≤ max (m.log2 + e - (m'.log2 + e') - 53) (-1074) := by
        rw [← target]
        refine (min_le_right _ _).trans (le_of_eq ?_)
        simp only [Format.targetExponent, totalExponent, Format.minExponent, Format.mantissaBits]
        omega
      have shift : (e - e' - t).toNat = n := by omega
      have rounds := rounds_roundWithAccuracy (sign / sign')
        (shows_fraction (m * 2 ^ n / m') (Nat.mod_lt (m * 2 ^ n) positive'))
        (ready_of_divCore positive positive' amount.symm low)
      rw [exact_divCore positive' amount.symm, factor_div] at rounds
      simp only [UnpackedFloat.div, divCore, target, shift, Nat.shiftLeft_eq]
      rwa [exact, exact, mul_div_mul_comm]

def value (x : Float) : ℚ :=
  exact x.toModel.unpack

/-- The least power of two above all finite numbers. -/
@[irreducible]
def limit : ℚ :=
  2 ^ (1024 : ℤ)

theorem limit_pos : 0 < limit := by
  unfold limit
  positivity

theorem limit_eq {e e' : ℤ} (sum : e + e' = 1024) : limit = 2 ^ e * 2 ^ e' := by
  rw [← zpow_add₀ two_ne_zero, sum, limit]

/-- The number that stands for one on the grid: itself, or an infinity where it is beyond the limit. -/
inductive Stores (r : ℚ) (x : Float) : Prop where
  | finite (isFinite : x.isFinite = true) (same : value x = r)
  | infinite {sign : Sign} (isInfinite : x.toModel.unpack = .infinity sign)
      (large : limit ≤ factor sign * r)

def RoundsTo (q : ℚ) (x : Float) : Prop :=
  ∃ r, Nearest q r ∧ Stores r x

theorem roundsTo_pack {q : ℚ} {u : UnpackedFloat} (rounds : Rounds q u) :
    RoundsTo q (Float.ofModel (Float.Model.pack u)) := by
  obtain ⟨finite, canonical, nearest⟩ := rounds
  obtain ⟨sign, rfl⟩ | ⟨sign, m, e, positive, rfl⟩ := zero_or_finite finite
  · have unpacked : (Float.Model.pack (.zero sign)).unpack = .zero sign := unpack_packedZero
    refine ⟨_, nearest, .finite ?_ ?_⟩
    · rw [Float.isFinite, Float.Model.isFinite, unpacked]
      rfl
    · rw [value, unpacked]
  · by_cases most : e ≤ 971
    · have unpacked : (Float.Model.pack (.finite sign m e positive)).unpack =
          .finite sign m e positive := unpack_pack canonical most
      refine ⟨_, nearest, .finite ?_ ?_⟩
      · rw [Float.isFinite, Float.Model.isFinite, unpacked]
        rfl
      · rw [value, unpacked]
    · have unpacked : (Float.Model.pack (.finite sign m e positive)).unpack = .infinity sign :=
        unpack_pack_of_large positive (by omega)
      refine ⟨_, nearest, .infinite unpacked ?_⟩
      have full : (2 : ℚ) ^ (52 : ℤ) ≤ m := by
        exact_mod_cast (bounds_of_canonical canonical).2.2 (by omega)
      calc limit = 2 ^ (52 : ℤ) * 2 ^ (972 : ℤ) := limit_eq rfl
        _ ≤ m * 2 ^ e := mul_le_mul full (zpow_le_zpow_right₀ one_le_two (by omega))
              (by positivity) (by positivity)
        _ = factor sign * exact (.finite sign m e positive) := by
              rw [exact, ← mul_assoc, factor_mul_self, one_mul]

variable {x y : Float} {q : ℚ}

/-- What an operation makes of its operands, unpacked, is what it makes of the numbers. -/
theorem canonical_of_float (x : Float) : Canonical x.toModel.unpack :=
  canonical_unpack x.toModel.toBits.toBitVec

theorem roundsTo_add (finite : x.isFinite = true) (finite' : y.isFinite = true) :
    RoundsTo (value x + value y) (x + y) :=
  roundsTo_pack (rounds_add finite (canonical_of_float x) finite' (canonical_of_float y))

theorem roundsTo_sub (finite : x.isFinite = true) (finite' : y.isFinite = true) :
    RoundsTo (value x - value y) (x - y) :=
  roundsTo_pack (rounds_sub finite (canonical_of_float x) finite' (canonical_of_float y))

theorem roundsTo_mul (finite : x.isFinite = true) (finite' : y.isFinite = true) :
    RoundsTo (value x * value y) (x * y) :=
  roundsTo_pack (rounds_mul finite (canonical_of_float x) finite' (canonical_of_float y))

theorem roundsTo_div (finite : x.isFinite = true) (finite' : y.isFinite = true)
    (nonzero : value y ≠ 0) : RoundsTo (value x / value y) (x / y) :=
  roundsTo_pack (rounds_div finite finite' nonzero)

/-- Only a finite number can change by being packed: it can become infinite. -/
theorem unpack_pack_of_not_finite {u : UnpackedFloat}
    (special : ∀ sign m e positive, u ≠ .finite sign m e positive) :
    (Float.Model.pack u).unpack = u := by
  cases u with
  | notANumber => exact unpack_packedNaN
  | infinity sign => exact unpack_packedInfinity sign
  | zero sign => exact unpack_packedZero
  | finite sign m e positive => exact absurd rfl (special sign m e positive)

end FieldPlot.Binary64
