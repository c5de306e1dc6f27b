import FieldPlot.Proofs.Arithmetic
import FieldPlot.Proofs.NumberOrder

/-!
Finite binary64 numbers and their values. Finite numbers compare as their values do, and results that
are bounded by numbers on the grid stay within these bounds.
-/
namespace FieldPlot.Binary64

open Float.Model UnpackedFloat

theorem magnitude_lt {m m' : Nat} {e e' : ℤ} (few : m < 2 ^ 53) (least : -1074 ≤ e)
    (full : -1074 < e' → 2 ^ 52 ≤ m') (less : e < e' ∨ e = e' ∧ m < m') :
    (m : ℚ) * 2 ^ e < m' * 2 ^ e' := by
  rcases less with lower | ⟨rfl, less⟩
  · have few : (m : ℚ) < 2 ^ 53 := by exact_mod_cast few
    have full : (2 : ℚ) ^ 52 ≤ m' := by exact_mod_cast full (by omega)
    calc (m : ℚ) * 2 ^ e < 2 ^ 53 * 2 ^ e := by gcongr
      _ = 2 ^ 52 * 2 ^ (e + 1) := by rw [zpow_add_one₀ two_ne_zero]; ring
      _ ≤ m' * 2 ^ e' := by (gcongr; norm_num; omega)
  · have less : (m : ℚ) < m' := by exact_mod_cast less
    gcongr

variable {u v : UnpackedFloat}

theorem exact_positive {m : Nat} (e : ℤ) (positive : 0 < m) :
    exact (.finite .positive m e positive) = m * 2 ^ e :=
  one_mul _

theorem exact_negative {m : Nat} (e : ℤ) (positive : 0 < m) :
    exact (.finite .negative m e positive) = -(m * 2 ^ e) :=
  neg_one_mul _

theorem exact_lt_of_rank (finite : u.isFinite = true) (canonical : Canonical u)
    (finite' : v.isFinite = true) (canonical' : Canonical v) (less : rank u < rank v) :
    exact u < exact v := by
  have size {m : Nat} (e : ℤ) (positive : 0 < m) : (0 : ℚ) < m * 2 ^ e := by positivity
  obtain ⟨sign, rfl⟩ | ⟨_ | _, m, e, positive, rfl⟩ := zero_or_finite finite <;>
  obtain ⟨sign', rfl⟩ | ⟨_ | _, m', e', positive', rfl⟩ := zero_or_finite finite' <;>
  simp only [rank, Prod.Lex.toLex_lt_toLex, exact_zero, exact_positive, exact_negative] at less ⊢
  case inr.negative.inr.negative =>
    obtain ⟨few', least', -⟩ := bounds_of_canonical canonical'
    exact neg_lt_neg (magnitude_lt few' least' (bounds_of_canonical canonical).2.2 (by omega))
  case inr.positive.inr.positive =>
    obtain ⟨few, least, -⟩ := bounds_of_canonical canonical
    exact magnitude_lt few least (bounds_of_canonical canonical').2.2 (by omega)
  case inr.negative.inr.positive => linarith [size e positive, size e' positive']
  case inr.negative.inl => linarith [size e positive]
  case inl.inr.positive => exact size e' positive'
  all_goals omega

theorem exact_eq_of_rank (finite : u.isFinite = true) (finite' : v.isFinite = true)
    (same : rank u = rank v) : exact u = exact v := by
  obtain ⟨sign, rfl⟩ | ⟨_ | _, m, e, positive, rfl⟩ := zero_or_finite finite <;>
  obtain ⟨sign', rfl⟩ | ⟨_ | _, m', e', positive', rfl⟩ := zero_or_finite finite' <;>
  simp_all [rank, exact]

theorem rank_le_iff (finite : u.isFinite = true) (canonical : Canonical u)
    (finite' : v.isFinite = true) (canonical' : Canonical v) :
    rank u ≤ rank v ↔ exact u ≤ exact v := by
  constructor
  · intro le
    rcases le.lt_or_eq with less | same
    · exact (exact_lt_of_rank finite canonical finite' canonical' less).le
    · exact (exact_eq_of_rank finite finite' same).le
  · intro le
    by_contra! more
    exact (exact_lt_of_rank finite' canonical' finite canonical more).not_ge le

theorem eq_of_rank_eq (finite : u.isFinite = true) (finite' : v.isFinite = true)
    (same : rank u = rank v) (nonzero : exact u ≠ 0) : u = v := by
  obtain ⟨sign, rfl⟩ | ⟨_ | _, m, e, positive, rfl⟩ := zero_or_finite finite <;>
  obtain ⟨sign', rfl⟩ | ⟨_ | _, m', e', positive', rfl⟩ := zero_or_finite finite' <;>
  simp_all [rank, exact_zero]

theorem sign_lt_iff (sign sign' : Sign) :
    compare sign sign' = .lt ↔ rank (.infinity sign) < rank (.infinity sign') := by
  cases sign <;> cases sign' <;> decide

theorem lt_iff_rank (a b : UnpackedFloat) :
    a.lt b = true ↔ a.isNaN = false ∧ b.isNaN = false ∧ rank a < rank b := by
  unfold UnpackedFloat.lt
  -- As for `le`, the class decides, but for two finite numbers of one sign.
  rcases a with ⟨_ | _⟩ | _ | _ | ⟨_ | _, m, e, _⟩ <;>
  rcases b with ⟨_ | _⟩ | _ | _ | ⟨_ | _, m', e', _⟩ <;>
  simp [UnpackedFloat.compare, UnpackedFloat.isNaN, rank, Prod.Lex.toLex_lt_toLex, sign_lt_iff,
    Ordering.then_eq_lt, Ordering.then_eq_gt, compare_lt_iff_lt, compare_gt_iff_gt]

variable {x y : Float}

theorem isNaN_of_isFinite (finite : x.isFinite = true) : x.isNaN = false := by
  change x.toModel.unpack.isNaN = false
  obtain ⟨sign, zero⟩ | ⟨sign, m, e, positive, shape⟩ := zero_or_finite finite
  · rw [zero]
    rfl
  · rw [shape]
    rfl

theorem isInf_of_isFinite (finite : x.isFinite = true) : x.isInf = false := by
  change x.toModel.unpack.isInf = false
  obtain ⟨sign, zero⟩ | ⟨sign, m, e, positive, shape⟩ := zero_or_finite finite
  · rw [zero]
    rfl
  · rw [shape]
    rfl

theorem lt_iff (x y : Float) : x < y ↔ x.isNaN = false ∧ y.isNaN = false ∧
    rank x.toModel.unpack < rank y.toModel.unpack :=
  Iff.trans decide_eq_true_iff (lt_iff_rank x.toModel.unpack y.toModel.unpack)

theorem le_iff_value (finite : x.isFinite = true) (finite' : y.isFinite = true) :
    x ≤ y ↔ value x ≤ value y := by
  rw [le_iff, isNaN_of_isFinite finite, isNaN_of_isFinite finite',
    rank_le_iff finite (canonical_of_float x) finite' (canonical_of_float y)]
  simp [value]

theorem lt_iff_value (finite : x.isFinite = true) (finite' : y.isFinite = true) :
    x < y ↔ value x < value y := by
  have ge := rank_le_iff finite' (canonical_of_float y) finite (canonical_of_float x)
  rw [lt_iff, isNaN_of_isFinite finite, isNaN_of_isFinite finite', ← not_le, ge]
  simp [value]

theorem onGrid_value (finite : x.isFinite = true) : OnGrid (value x) :=
  (rounds_exact finite (canonical_of_float x)).nearest.onGrid

/-- With a larger exponent the bits would have been those of an infinity. -/
theorem exponent_le {sign : Sign} {m : Nat} {e : ℤ} {positive : 0 < m}
    (shape : x.toModel.unpack = .finite sign m e positive) : e ≤ 971 := by
  by_contra! large
  have infinite : UnpackedFloat.unpack Format.binary64
      (UnpackedFloat.pack Format.binary64 (.finite sign m e positive)) = .infinity sign :=
    unpack_pack_of_large positive large
  have packed : UnpackedFloat.pack Format.binary64 (.finite sign m e positive) =
      x.toModel.toBits.toBitVec :=
    (congrArg (UnpackedFloat.pack Format.binary64) shape.symm).trans
      (pack_unpack_of_valid x.toModel.valid)
  rw [packed] at infinite
  exact absurd (infinite.symm.trans shape) (by simp)

theorem abs_value_lt (finite : x.isFinite = true) : |value x| < limit := by
  unfold value
  obtain ⟨sign, zero⟩ | ⟨sign, m, e, positive, shape⟩ := zero_or_finite finite
  · rw [zero, exact_zero, abs_zero]
    exact limit_pos
  · have canonical := canonical_of_float x
    have most := exponent_le shape
    rw [shape] at canonical ⊢
    have few : (m : ℚ) < 2 ^ (53 : ℤ) := by exact_mod_cast (bounds_of_canonical canonical).1
    have size : |exact (.finite sign m e positive)| = m * 2 ^ e := by
      have nonneg : (0 : ℚ) ≤ m * 2 ^ e := by positivity
      cases sign with
      | positive => rw [exact_positive, abs_of_nonneg nonneg]
      | negative => rw [exact_negative, abs_neg, abs_of_nonneg nonneg]
    calc |exact (.finite sign m e positive)| = m * 2 ^ e := size
      _ ≤ m * 2 ^ (971 : ℤ) := by gcongr; norm_num
      _ < 2 ^ (53 : ℤ) * 2 ^ (971 : ℤ) := by gcongr
      _ = limit := (limit_eq rfl).symm

theorem Stores.finite_of_lt {r : ℚ} (stores : Stores r x) (above : -limit < r) (below : r < limit) :
    x.isFinite = true ∧ value x = r := by
  cases stores with
  | finite isFinite same => exact ⟨isFinite, same⟩
  | @infinite sign _ large =>
    cases sign with
    | positive =>
      rw [factor, one_mul] at large
      exact absurd below large.not_gt
    | negative =>
      rw [factor, neg_one_mul] at large
      linarith

/-- A result between two numbers of the format stays between them. -/
theorem RoundsTo.within {q low high : ℚ} (rounds : RoundsTo q x) (gridLow : OnGrid low)
    (gridHigh : OnGrid high) (above : -limit < low) (below : high < limit) (lower : low ≤ q)
    (upper : q ≤ high) : x.isFinite = true ∧ low ≤ value x ∧ value x ≤ high := by
  obtain ⟨r, nearest, stores⟩ := rounds
  have least := nearest.ge_of_ge gridLow lower
  have most := nearest.le_of_le gridHigh upper
  obtain ⟨finite, rfl⟩ := stores.finite_of_lt (above.trans_le least) (most.trans_lt below)
  exact ⟨finite, least, most⟩

theorem ofNat_of_small {n : Nat} (small : n < 2 ^ 53) :
    Float.ofNat n = Float.ofModel (Float.Model.pack
      (UnpackedFloat.normalize Format.binary64 n 0 .positive)) := by
  have same : n.toUInt64.toNat = n := UInt64.toNat_ofNat_of_lt' (small.trans (by decide))
  have scaled : Float.ofNat n = n.toUInt64.toFloat * 1 := by
    unfold Float.ofNat
    change Float.ofScientific n false 0 = _
    rw [Float.ofScientific, dif_pos ⟨small, by decide⟩]
    rfl
  rw [scaled, mul_one]
  change Float.ofModel (Float.Model.pack (UnpackedFloat.ofNat _ n.toUInt64.toNat)) = _
  rw [same]
  rfl

theorem ofNat_of_large {n : Nat} (large : ¬ n < 2 ^ 53) :
    Float.ofNat n = Float.ofModel (Float.Model.pack
      (roundWithAccuracy Format.binary64 .positive (n * 2 ^ 53) (-53) .exact)) := by
  unfold Float.ofNat
  change Float.ofScientific n false 0 = _
  rw [Float.ofScientific, dif_neg (by omega)]
  change Float.ofModel (Float.Model.pack (UnpackedFloat.ofScientific _ n 0)) = _
  have scale : n <<< Format.binary64.mantissaBits * 10 ^ (0 : ℤ).toNat = n * 2 ^ 53 := by
    rw [Nat.shiftLeft_eq]
    simp [Format.mantissaBits]
  have exponent : -(Format.binary64.mantissaBits : ℤ) + 0 = -53 := by decide
  rw [UnpackedFloat.ofScientific, dif_neg (by omega), if_neg (by decide), if_neg, if_pos le_rfl,
    UnpackedFloat.mul, scale, exponent]
  · rfl
  · have width : (0 : ℤ) ≤ 2 ^ Format.binary64.exponentBits := by decide
    exact not_lt.mpr (neg_nonpos.mpr (add_nonneg width (Int.natCast_nonneg _)))

theorem roundsTo_ofNat (n : Nat) : RoundsTo n (Float.ofNat n) := by
  by_cases small : n < 2 ^ 53
  · rw [ofNat_of_small small]
    simpa using roundsTo_pack (rounds_normalize n 0 .positive)
  · rw [ofNat_of_large small]
    have ready : -53 ≤ Format.binary64.targetExponent (totalExponent (n * 2 ^ 53) (-53)) := by
      rw [targetExponent_eq, log2_mul_two_pow (by omega)]
      omega
    have rounds := rounds_roundWithAccuracy .positive (shows_exact (n * 2 ^ 53)) ready
    have scaled : ((n * 2 ^ 53 : Nat) : ℚ) * 2 ^ (-53 : ℤ) = n := by
      push_cast
      rw [zpow_neg]
      field_simp
      norm_num
    rw [factor, one_mul, scaled] at rounds
    exact roundsTo_pack rounds

theorem natCast_lt_limit {n : Nat} (small : n ≤ 2 ^ 53) : (n : ℚ) < limit := by
  rw [limit_eq (show (53 : ℤ) + 971 = 1024 from rfl)]
  calc (n : ℚ) ≤ 2 ^ (53 : ℤ) := by exact_mod_cast small
    _ < 2 ^ (53 : ℤ) * 2 ^ (971 : ℤ) := lt_mul_of_one_lt_right (by positivity)
        (one_lt_zpow₀ one_lt_two (by decide))

theorem abs_intCast_lt_limit {k : ℤ} (small : |k| ≤ 2 ^ 53) : |(k : ℚ)| < limit := by
  rw [Int.abs_eq_natAbs] at small
  have size := natCast_lt_limit (n := k.natAbs) (by exact_mod_cast small)
  rwa [Nat.cast_natAbs, Int.cast_abs] at size

theorem RoundsTo.within_int {q : ℚ} (rounds : RoundsTo q x) (low high : ℤ)
    (smallLow : -2 ^ 53 ≤ low) (smallHigh : high ≤ 2 ^ 53) (lower : low ≤ q) (upper : q ≤ high) :
    x.isFinite = true ∧ low ≤ value x ∧ value x ≤ high := by
  have order : low ≤ high := by exact_mod_cast lower.trans upper
  have absLow : |low| ≤ 2 ^ 53 := abs_le.mpr ⟨smallLow, order.trans smallHigh⟩
  have absHigh : |high| ≤ 2 ^ 53 := abs_le.mpr ⟨smallLow.trans order, smallHigh⟩
  exact rounds.within (onGrid_intCast absLow) (onGrid_intCast absHigh)
    (abs_lt.mp (abs_intCast_lt_limit absLow)).1 (abs_lt.mp (abs_intCast_lt_limit absHigh)).2
    lower upper

theorem RoundsTo.eq_int {q : ℚ} (rounds : RoundsTo q x) (k : ℤ) (least : -2 ^ 53 ≤ k)
    (most : k ≤ 2 ^ 53) (same : q = k) : x.isFinite = true ∧ value x = k := by
  obtain ⟨finite, low, high⟩ := rounds.within_int k k least most same.ge same.le
  exact ⟨finite, le_antisymm high low⟩

theorem value_ofNat {n : Nat} (small : n ≤ 2 ^ 53) :
    (Float.ofNat n).isFinite = true ∧ value (Float.ofNat n) = n := by
  exact_mod_cast (roundsTo_ofNat n).eq_int n (by omega) (by exact_mod_cast small) rfl

theorem value_zero : (0 : Float).isFinite = true ∧ value 0 = 0 := by
  exact_mod_cast value_ofNat (n := 0) (by decide)

theorem value_one : (1 : Float).isFinite = true ∧ value 1 = 1 := by
  exact_mod_cast value_ofNat (n := 1) (by decide)

end FieldPlot.Binary64
