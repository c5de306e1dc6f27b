import FieldPlot.Proofs.Values

/-!
Differences and quotients of binary64 numbers, also where they are infinite. A difference is on the side
of zero that the exact one is on, it is zero only where the numbers are equal, and of two differences
from one number that of the larger number is not the smaller one.
-/
namespace FieldPlot.Binary64

open Float.Model UnpackedFloat

def AtMost (x : Float) (q : ℚ) : Prop :=
  x.isFinite = true ∧ value x ≤ q ∨ x.toModel.unpack = .infinity .negative

def AtLeast (x : Float) (q : ℚ) : Prop :=
  x.isFinite = true ∧ q ≤ value x ∨ x.toModel.unpack = .infinity .positive

def IsNumber (x : Float) : Prop :=
  x.isFinite = true ∨ ∃ sign, x.toModel.unpack = .infinity sign

variable {x y : Float} {q r b : ℚ}

theorem RoundsTo.isNumber (rounds : RoundsTo q x) : IsNumber x := by
  obtain ⟨r, -, stores⟩ := rounds
  cases stores with
  | finite isFinite _ => exact .inl isFinite
  | infinite isInfinite _ => exact .inr ⟨_, isInfinite⟩

theorem Stores.atMost (stores : Stores r x) (below : b < limit) (le : r ≤ b) : AtMost x b := by
  cases stores with
  | finite isFinite same => exact .inl ⟨isFinite, same.trans_le le⟩
  | @infinite sign isInfinite large =>
    cases sign with
    | negative => exact .inr isInfinite
    | positive =>
      rw [factor, one_mul] at large
      linarith

theorem Stores.atLeast (stores : Stores r x) (above : -limit < b) (ge : b ≤ r) : AtLeast x b := by
  cases stores with
  | finite isFinite same => exact .inl ⟨isFinite, ge.trans_eq same.symm⟩
  | @infinite sign isInfinite large =>
    cases sign with
    | positive => exact .inr isInfinite
    | negative =>
      rw [factor, neg_one_mul] at large
      linarith

theorem RoundsTo.atMost (rounds : RoundsTo q x) (grid : OnGrid b) (below : b < limit) (le : q ≤ b) :
    AtMost x b := by
  obtain ⟨r, nearest, stores⟩ := rounds
  exact stores.atMost below (nearest.le_of_le grid le)

theorem RoundsTo.atLeast (rounds : RoundsTo q x) (grid : OnGrid b) (above : -limit < b)
    (ge : b ≤ q) : AtLeast x b := by
  obtain ⟨r, nearest, stores⟩ := rounds
  exact stores.atLeast above (nearest.ge_of_ge grid ge)

theorem unpack_of_pos (finite : y.isFinite = true) (positive : 0 < value y) :
    ∃ m e p, y.toModel.unpack = .finite .positive m e p := by
  obtain ⟨sign, zero⟩ | ⟨_ | _, m, e, p, shape⟩ := zero_or_finite finite
  · rw [value, zero, exact_zero] at positive
    exact absurd positive (lt_irrefl 0)
  · rw [value, shape, exact_negative] at positive
    have : (0 : ℚ) ≤ m * 2 ^ e := by positivity
    linarith
  · exact ⟨m, e, p, shape⟩

theorem unpack_div (x y : Float) : (x / y).toModel.unpack =
    (Float.Model.pack (UnpackedFloat.div Format.binary64 x.toModel.unpack y.toModel.unpack)).unpack :=
  rfl

theorem unpack_div_of_infinity {sign : Sign} (infinite : x.toModel.unpack = .infinity sign)
    (finite : y.isFinite = true) (positive : 0 < value y) :
    (x / y).toModel.unpack = .infinity sign := by
  obtain ⟨m, e, p, shape⟩ := unpack_of_pos finite positive
  have quotient : UnpackedFloat.div Format.binary64 (.infinity sign) (.finite .positive m e p) =
      .infinity sign := by
    cases sign <;> rfl
  rw [unpack_div, infinite, shape, quotient]
  exact unpack_pack_of_not_finite (by simp)

theorem IsNumber.div (number : IsNumber x) (finite : y.isFinite = true) (positive : 0 < value y) :
    IsNumber (x / y) := by
  rcases number with isFinite | ⟨sign, infinite⟩
  · exact (roundsTo_div isFinite finite positive.ne').isNumber
  · exact .inr ⟨sign, unpack_div_of_infinity infinite finite positive⟩

theorem AtMost.div (atMost : AtMost x 0) (finite : y.isFinite = true) (positive : 0 < value y) :
    AtMost (x / y) 0 := by
  rcases atMost with ⟨isFinite, nonpos⟩ | infinite
  · have rounds := roundsTo_div isFinite finite positive.ne'
    exact rounds.atMost onGrid_zero limit_pos (div_nonpos_of_nonpos_of_nonneg nonpos positive.le)
  · exact .inr (unpack_div_of_infinity infinite finite positive)

theorem onGrid_one : OnGrid 1 := by
  simpa using onGrid_intCast (k := 1) (by norm_num)

theorem one_lt_limit : 1 < limit := by
  unfold limit
  exact one_lt_zpow₀ one_lt_two (by decide)

theorem AtLeast.div (atLeast : AtLeast x (value y)) (finite : y.isFinite = true)
    (positive : 0 < value y) : AtLeast (x / y) 1 := by
  rcases atLeast with ⟨isFinite, more⟩ | infinite
  · have rounds := roundsTo_div isFinite finite positive.ne'
    exact rounds.atLeast onGrid_one (by linarith [one_lt_limit]) ((one_le_div positive).mpr more)
  · exact .inr (unpack_div_of_infinity infinite finite positive)

theorem not_finite_of_infinity {sign : Sign} (infinite : x.toModel.unpack = .infinity sign) :
    x.isFinite ≠ true := by
  change x.toModel.unpack.isFinite ≠ true
  rw [infinite]
  exact Bool.false_ne_true

/-- The least number above zero. -/
@[irreducible]
def gap : ℚ :=
  2 ^ (-1074 : ℤ)

theorem gap_pos : 0 < gap := by
  unfold gap
  positivity

theorem onGrid_gap : OnGrid gap :=
  ⟨1, -1074, by norm_num, le_rfl, by rw [gap, Int.cast_one, one_mul]⟩

theorem OnGrid.multiple (grid : OnGrid q) : ∃ k : ℤ, q = k * gap := by
  obtain ⟨k, e, -, least, rfl⟩ := grid
  have exponent : e = (e + 1074).toNat + -1074 := by omega
  refine ⟨k * 2 ^ (e + 1074).toNat, ?_⟩
  rw [Int.cast_mul, Int.cast_pow, Int.cast_ofNat, mul_assoc, gap, ← zpow_natCast,
    ← zpow_add₀ two_ne_zero, ← exponent]

theorem gap_le_sub (finite : x.isFinite = true) (finite' : y.isFinite = true)
    (less : value x < value y) : gap ≤ value y - value x := by
  obtain ⟨k, left⟩ := (onGrid_value finite).multiple
  obtain ⟨k', right⟩ := (onGrid_value finite').multiple
  rw [left, right] at less ⊢
  have apart : k < k' := by exact_mod_cast lt_of_mul_lt_mul_right less gap_pos.le
  have one : (1 : ℚ) ≤ k' - k := by exact_mod_cast Int.sub_pos_of_lt apart
  calc gap = 1 * gap := (one_mul _).symm
    _ ≤ (k' - k) * gap := mul_le_mul_of_nonneg_right one gap_pos.le
    _ = k' * gap - k * gap := sub_mul _ _ _

/-- The difference of two numbers is zero only where they are equal. -/
theorem gap_atLeast_sub (finite : x.isFinite = true) (finite' : y.isFinite = true)
    (less : value x < value y) : AtLeast (y - x) gap :=
  (roundsTo_sub finite' finite).atLeast onGrid_gap (by linarith [limit_pos, gap_pos])
    (gap_le_sub finite finite' less)

theorem sub_pos_of_lt (finite : x.isFinite = true) (finite' : y.isFinite = true)
    (less : value x < value y) (isFinite : (y - x).isFinite = true) : 0 < value (y - x) := by
  rcases gap_atLeast_sub finite finite' less with ⟨-, more⟩ | infinite
  · exact gap_pos.trans_le more
  · exact absurd isFinite (not_finite_of_infinity infinite)

theorem unpack_eq_of_value_eq (finite : x.isFinite = true) (finite' : y.isFinite = true)
    (same : value x = value y) (nonzero : value x ≠ 0) : x.toModel.unpack = y.toModel.unpack := by
  have le {a b : Float} (left : a.isFinite = true) (right : b.isFinite = true) :=
    rank_le_iff left (canonical_of_float a) right (canonical_of_float b)
  have ranks := le_antisymm ((le finite finite').mpr same.le) ((le finite' finite).mpr same.ge)
  exact eq_of_rank_eq finite finite' ranks nonzero

theorem sub_atMost (finite : x.isFinite = true) (finite' : y.isFinite = true)
    (le : value x ≤ value y) : AtMost (x - y) 0 :=
  (roundsTo_sub finite finite').atMost onGrid_zero limit_pos (sub_nonpos.mpr le)

theorem sub_le_sub {z : Float} (finite : x.isFinite = true) (finite' : y.isFinite = true)
    (start : z.isFinite = true) (le : value x ≤ value y) :
    ∃ r r', Stores r (x - z) ∧ Stores r' (y - z) ∧ r ≤ r' := by
  obtain ⟨r, nearest, stores⟩ := roundsTo_sub finite start
  obtain ⟨r', nearest', stores'⟩ := roundsTo_sub finite' start
  rcases le.lt_or_eq with less | same
  · exact ⟨r, r', stores, stores', nearest.mono nearest' (sub_lt_sub_right less _)⟩
  · by_cases zero : value x = 0
    · -- The difference from zero is not rounded.
      rw [← same, zero, zero_sub] at nearest'
      rw [zero, zero_sub] at nearest
      have grid := (onGrid_value start).neg
      exact ⟨r, r', stores, stores',
        ((nearest.eq_of_onGrid grid).trans (nearest'.eq_of_onGrid grid).symm).le⟩
    · have unpacked := unpack_eq_of_value_eq finite finite' same zero
      have equal : x - z = y - z :=
        congrArg (fun u => Float.ofModel (Float.Model.pack
          (UnpackedFloat.sub Format.binary64 u z.toModel.unpack))) unpacked
      exact ⟨r, r, stores, equal ▸ stores, le_rfl⟩

/-- Beyond the end of a range the distance from its start is at least its length. -/
theorem sub_atLeast {z : Float} (finite : x.isFinite = true) (finite' : y.isFinite = true)
    (start : z.isFinite = true) (le : value x ≤ value y) (isFinite : (x - z).isFinite = true) :
    AtLeast (y - z) (value (x - z)) := by
  obtain ⟨r, r', stores, stores', more⟩ := sub_le_sub finite finite' start le
  cases stores with
  | finite _ same =>
    have bounds := abs_lt.mp (abs_value_lt isFinite)
    exact stores'.atLeast bounds.1 (same.trans_le more)
  | infinite infinite _ => exact absurd isFinite (not_finite_of_infinity infinite)

theorem sub_infinite {z : Float} (finite : x.isFinite = true) (finite' : y.isFinite = true)
    (start : z.isFinite = true) (le : value x ≤ value y)
    (infinite : (x - z).toModel.unpack = .infinity .positive) :
    (y - z).toModel.unpack = .infinity .positive := by
  obtain ⟨r, r', stores, stores', more⟩ := sub_le_sub finite finite' start le
  cases stores with
  | finite isFinite _ => exact absurd isFinite (not_finite_of_infinity infinite)
  | @infinite sign isInfinite large =>
    obtain rfl : sign = .positive := by simpa [infinite, eq_comm] using isInfinite
    rw [factor, one_mul] at large
    rcases stores'.atLeast (by linarith [limit_pos]) more with ⟨isFinite', least⟩ | done
    · have := (abs_lt.mp (abs_value_lt isFinite')).2
      linarith
    · exact done

theorem isNaN_of_infinity {sign : Sign} (infinite : x.toModel.unpack = .infinity sign) :
    x.isNaN = false := by
  change x.toModel.unpack.isNaN = false
  rw [infinite]
  rfl

theorem isNaN_of_none (none : x.toModel.unpack = .notANumber) : x.isNaN = true := by
  change x.toModel.unpack.isNaN = true
  rw [none]
  rfl

theorem negative_infinity_lt (infinite : x.toModel.unpack = .infinity .negative)
    (finite : y.isFinite = true) : x < y := by
  rw [lt_iff, isNaN_of_infinity infinite, isNaN_of_isFinite finite, infinite]
  refine ⟨rfl, rfl, ?_⟩
  obtain ⟨sign, shape⟩ | ⟨_ | _, m, e, p, shape⟩ := zero_or_finite finite <;>
  · rw [shape]
    simp [rank, Prod.Lex.toLex_lt_toLex]

theorem lt_positive_infinity (infinite : x.toModel.unpack = .infinity .positive)
    (finite : y.isFinite = true) : y < x := by
  rw [lt_iff, isNaN_of_infinity infinite, isNaN_of_isFinite finite, infinite]
  refine ⟨rfl, rfl, ?_⟩
  obtain ⟨sign, shape⟩ | ⟨_ | _, m, e, p, shape⟩ := zero_or_finite finite <;>
  · rw [shape]
    simp [rank, Prod.Lex.toLex_lt_toLex]

theorem none_of_operation (operation : UnpackedFloat → UnpackedFloat)
    (none : x.toModel.unpack = .notANumber) (keeps : operation .notANumber = .notANumber) :
    (Float.Model.pack (operation x.toModel.unpack)).unpack = .notANumber := by
  rw [none, keeps]
  exact unpack_pack_of_not_finite (by simp)

theorem none_mul (none : x.toModel.unpack = .notANumber) (y : Float) :
    (x * y).toModel.unpack = .notANumber :=
  none_of_operation (UnpackedFloat.mul Format.binary64 · y.toModel.unpack) none rfl

theorem mul_none (none : x.toModel.unpack = .notANumber) (y : Float) :
    (y * x).toModel.unpack = .notANumber :=
  none_of_operation (UnpackedFloat.mul Format.binary64 y.toModel.unpack) none
    (by cases y.toModel.unpack <;> rfl)

theorem none_sub (none : x.toModel.unpack = .notANumber) (y : Float) :
    (x - y).toModel.unpack = .notANumber :=
  none_of_operation (UnpackedFloat.sub Format.binary64 · y.toModel.unpack) none rfl

theorem add_none (none : x.toModel.unpack = .notANumber) (y : Float) :
    (y + x).toModel.unpack = .notANumber :=
  none_of_operation (UnpackedFloat.add Format.binary64 y.toModel.unpack) none
    (by cases y.toModel.unpack <;> rfl)

end FieldPlot.Binary64
