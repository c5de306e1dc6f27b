import FieldPlot.Drawing
import FieldPlot.Figure.Request
import FieldPlot.Proofs.Bounds
import FieldPlot.Proofs.Differences
import FieldPlot.Proofs.Nearest

/-!
Values as colours. The place of a value in a range is its distance from the lower end, divided by the
length of the range. Where one of the two is finite the place is a number from 0 to 1, and then the
colour is on the scale: the first stop up to the lower end, and the last one from the upper end on. Where
both are infinite the place is no number, and the colour is black.
-/
namespace FieldPlot

namespace Colour

open Binary64 Float.Model

structure Placed (v low high t : Float) : Prop where
  isFinite : t.isFinite = true
  nonneg : 0 ≤ value t
  le_one : value t ≤ 1
  start : value v ≤ value low → value t = 0
  stop : value high ≤ value v → value t = 1

variable {v low high p : Float}

theorem clampUnit_of_isFinite (finite : p.isFinite = true) :
    (clampUnit p).isFinite = true ∧ value (clampUnit p) = max 0 (min 1 (value p)) := by
  obtain ⟨finiteZero, zero⟩ := value_zero
  obtain ⟨finiteOne, one⟩ := value_one
  unfold clampUnit
  split
  · rename_i below
    rw [lt_iff_value finite finiteZero, zero] at below
    exact ⟨finiteZero, by rw [zero, max_eq_left ((min_le_right _ _).trans below.le)]⟩
  · rename_i nonneg
    rw [lt_iff_value finite finiteZero, zero, not_lt] at nonneg
    split
    · rename_i above
      rw [lt_iff_value finiteOne finite, one] at above
      exact ⟨finiteOne, by rw [one, min_eq_left above.le, max_eq_right zero_le_one]⟩
    · rename_i below
      rw [lt_iff_value finiteOne finite, one, not_lt] at below
      exact ⟨finite, by rw [min_eq_right below, max_eq_right nonneg]⟩

theorem clampUnit_of_atMost (atMost : AtMost p 0) :
    (clampUnit p).isFinite = true ∧ value (clampUnit p) = 0 := by
  rcases atMost with ⟨finite, nonpos⟩ | infinite
  · obtain ⟨isFinite, same⟩ := clampUnit_of_isFinite finite
    exact ⟨isFinite, by rw [same, max_eq_left ((min_le_right _ _).trans nonpos)]⟩
  · rw [clampUnit, if_pos (negative_infinity_lt infinite value_zero.1)]
    exact value_zero

theorem clampUnit_of_atLeast (atLeast : AtLeast p 1) :
    (clampUnit p).isFinite = true ∧ value (clampUnit p) = 1 := by
  rcases atLeast with ⟨finite, more⟩ | infinite
  · obtain ⟨isFinite, same⟩ := clampUnit_of_isFinite finite
    exact ⟨isFinite, by rw [same, min_eq_left more, max_eq_right zero_le_one]⟩
  · have above := lt_positive_infinity infinite value_zero.1
    have asymm : ¬ p < 0 := by
      rw [lt_iff] at above ⊢
      exact fun less => lt_asymm above.2.2 less.2.2
    rw [clampUnit, if_neg asymm, if_pos (lt_positive_infinity infinite value_one.1)]
    exact value_one

theorem clampUnit_of_isNumber (number : IsNumber p) :
    (clampUnit p).isFinite = true ∧ 0 ≤ value (clampUnit p) ∧ value (clampUnit p) ≤ 1 := by
  rcases number with finite | ⟨_ | _, infinite⟩
  · obtain ⟨isFinite, same⟩ := clampUnit_of_isFinite finite
    exact ⟨isFinite, by rw [same]; exact le_max_left _ _,
      by rw [same]; exact max_le zero_le_one (min_le_left _ _)⟩
  · obtain ⟨isFinite, same⟩ := clampUnit_of_atMost (.inr infinite)
    exact ⟨isFinite, same.ge, same.trans_le zero_le_one⟩
  · obtain ⟨isFinite, same⟩ := clampUnit_of_atLeast (.inr infinite)
    exact ⟨isFinite, same.symm ▸ zero_le_one, same.le⟩

theorem clampUnit_of_none (none : p.toModel.unpack = .notANumber) : clampUnit p = p := by
  have below : ¬ p < 0 := fun less => absurd ((lt_iff _ _).mp less).1 (by rw [isNaN_of_none none]; decide)
  have above : ¬ 1 < p := fun less => absurd ((lt_iff _ _).mp less).2.1 (by rw [isNaN_of_none none]; decide)
  rw [clampUnit, if_neg below, if_neg above]

theorem position_eq (less : low < high) :
    position v (low, high) = clampUnit ((v - low) / (high - low)) :=
  if_pos less

theorem placed_of_finite_length (finite : v.isFinite = true) (finiteLow : low.isFinite = true)
    (finiteHigh : high.isFinite = true) (less : low < high)
    (length : (high - low).isFinite = true) : Placed v low high (position v (low, high)) := by
  have apart := (lt_iff_value finiteLow finiteHigh).mp less
  have positive := sub_pos_of_lt finiteLow finiteHigh apart length
  rw [position_eq less]
  have number := (roundsTo_sub finite finiteLow).isNumber.div length positive
  obtain ⟨isFinite, nonneg, le_one⟩ := clampUnit_of_isNumber number
  refine ⟨isFinite, nonneg, le_one, ?_, ?_⟩
  · intro below
    have distance := sub_atMost finite finiteLow below
    exact (clampUnit_of_atMost (distance.div length positive)).2
  · intro above
    have distance := sub_atLeast finiteHigh finite finiteLow above length
    exact (clampUnit_of_atLeast (distance.div length positive)).2

theorem infinite_length (finiteLow : low.isFinite = true) (finiteHigh : high.isFinite = true)
    (less : low < high) (length : (high - low).isFinite ≠ true) :
    (high - low).toModel.unpack = .infinity .positive := by
  have apart := (lt_iff_value finiteLow finiteHigh).mp less
  rcases gap_atLeast_sub finiteLow finiteHigh apart with ⟨isFinite, -⟩ | infinite
  · exact absurd isFinite length
  · exact infinite

/-- A distance that is a number, divided by a length that is none: the place is the start. -/
theorem placed_of_finite_distance (finite : v.isFinite = true) (finiteLow : low.isFinite = true)
    (finiteHigh : high.isFinite = true) (less : low < high)
    (length : (high - low).isFinite ≠ true) (distance : (v - low).isFinite = true) :
    Placed v low high (position v (low, high)) := by
  have infinite := infinite_length finiteLow finiteHigh less length
  have quotient : ∃ sign, ((v - low) / (high - low)).toModel.unpack = .zero sign := by
    rw [unpack_div, infinite]
    obtain ⟨sign, shape⟩ | ⟨sign, m, e, p, shape⟩ := zero_or_finite distance <;>
    · rw [shape]
      exact ⟨_, unpack_pack_of_not_finite (by simp [UnpackedFloat.div])⟩
  obtain ⟨sign, zero⟩ := quotient
  have isFinite : ((v - low) / (high - low)).isFinite = true := by
    change ((v - low) / (high - low)).toModel.unpack.isFinite = true
    rw [zero]
    rfl
  have place : value ((v - low) / (high - low)) = 0 := by
    rw [value, zero, exact_zero]
  obtain ⟨stays, same⟩ := clampUnit_of_isFinite isFinite
  rw [place, min_eq_right zero_le_one, max_self] at same
  rw [position_eq less]
  refine ⟨stays, same.ge, same.trans_le zero_le_one, fun _ => same, ?_⟩
  intro above
  have distant := sub_infinite finiteHigh finite finiteLow above infinite
  exact absurd distance (not_finite_of_infinity distant)

theorem position_of_infinite (finite : v.isFinite = true) (finiteLow : low.isFinite = true)
    (finiteHigh : high.isFinite = true) (less : low < high)
    (length : (high - low).isFinite ≠ true) (distance : (v - low).isFinite ≠ true) :
    (position v (low, high)).toModel.unpack = .notANumber := by
  have infinite := infinite_length finiteLow finiteHigh less length
  obtain ⟨sign, distant⟩ := (roundsTo_sub finite finiteLow).isNumber.resolve_left distance
  have none : ((v - low) / (high - low)).toModel.unpack = .notANumber := by
    rw [unpack_div, infinite, distant]
    exact unpack_pack_of_not_finite (by simp [UnpackedFloat.div])
  rw [position_eq less, clampUnit_of_none none, none]

theorem level_within {x : Float} {least greatest : Nat} (finite : x.isFinite = true)
    (lower : (least : ℚ) ≤ value x) (upper : value x ≤ greatest) (few : greatest ≤ 255) :
    least ≤ (level x).toNat ∧ (level x).toNat ≤ greatest := by
  obtain ⟨bottom, top⟩ := nearestNat_within finite lower upper few
  have size : (level x).toNat = Decimal.nearestNat 255 x :=
    UInt8.toNat_ofNat_of_lt' (top.trans_lt (few.trans_lt (by decide)))
  rw [size]
  exact ⟨bottom, top⟩

theorem level_eq {x : Float} {k : Nat} (finite : x.isFinite = true) (same : value x = k)
    (few : k ≤ 255) : level x = UInt8.ofNat k := by
  obtain ⟨bottom, top⟩ := nearestNat_within finite same.ge same.le few
  exact congrArg UInt8.ofNat (le_antisymm top bottom)

/-- A mixture of two numbers is rounded to a whole number three times and does not go beyond one. -/
theorem mix_within (least greatest : Nat) {a b : Nat} {t : Float} (start : a ≤ 255) (stop : b ≤ 255)
    (few : greatest ≤ 255) (finite : t.isFinite = true)
    (lower : (least : ℚ) ≤ a + (b - a) * value t) (upper : a + (b - a) * value t ≤ greatest) :
    least ≤ (level (Float.ofNat a + (Float.ofNat b - Float.ofNat a) * t)).toNat ∧
      (level (Float.ofNat a + (Float.ofNat b - Float.ofNat a) * t)).toNat ≤ greatest := by
  obtain ⟨finiteA, valueA⟩ := value_ofNat (n := a) (by omega)
  obtain ⟨finiteB, valueB⟩ := value_ofNat (n := b) (by omega)
  have difference := roundsTo_sub finiteB finiteA
  rw [valueA, valueB] at difference
  obtain ⟨finiteD, valueD⟩ := difference.eq_int (b - a) (by omega) (by omega) (by push_cast; rfl)
  push_cast at valueD
  have part := roundsTo_mul finiteD finite
  rw [valueD] at part
  obtain ⟨finiteP, above, below⟩ := part.within_int (least - a) (greatest - a) (by omega) (by omega)
    (by push_cast; linarith) (by push_cast; linarith)
  have sum := roundsTo_add finiteA finiteP
  rw [valueA] at sum
  push_cast at above below
  obtain ⟨finiteM, bottom, top⟩ := sum.within_int least greatest (by omega) (by omega)
    (by push_cast; linarith) (by push_cast; linarith)
  exact level_within finiteM bottom top few

variable {t : Float}

theorem mixture_within {a b t : ℚ} (nonneg : 0 ≤ t) (le_one : t ≤ 1) :
    min a b ≤ a + (b - a) * t ∧ a + (b - a) * t ≤ max a b := by
  rcases le_total a b with up | down
  · rw [min_eq_left up, max_eq_right up]
    constructor <;> nlinarith
  · rw [min_eq_right down, max_eq_left down]
    constructor <;> nlinarith

theorem mix_between {a b : Nat} (start : a ≤ 255) (stop : b ≤ 255) (finite : t.isFinite = true)
    (nonneg : 0 ≤ value t) (le_one : value t ≤ 1) :
    min a b ≤ (level (Float.ofNat a + (Float.ofNat b - Float.ofNat a) * t)).toNat ∧
      (level (Float.ofNat a + (Float.ofNat b - Float.ofNat a) * t)).toNat ≤ max a b := by
  obtain ⟨lower, upper⟩ := mixture_within (a := (a : ℚ)) (b := b) nonneg le_one
  exact mix_within (min a b) (max a b) start stop (max_le start stop) finite
    (by rwa [Nat.cast_min]) (by rwa [Nat.cast_max])

theorem mix_start {a b : Nat} (start : a ≤ 255) (stop : b ≤ 255) (finite : t.isFinite = true)
    (zero : value t = 0) :
    (level (Float.ofNat a + (Float.ofNat b - Float.ofNat a) * t)).toNat = a := by
  obtain ⟨least, most⟩ := mix_within a a start stop start finite (by simp [zero]) (by simp [zero])
  omega

theorem mix_stop {a b : Nat} (start : a ≤ 255) (stop : b ≤ 255) (finite : t.isFinite = true)
    (one : value t = 1) :
    (level (Float.ofNat a + (Float.ofNat b - Float.ofNat a) * t)).toNat = b := by
  obtain ⟨least, most⟩ := mix_within b b start stop stop finite (by simp [one]) (by simp [one])
  omega

structure OnScale (c : Colour) : Prop where
  red : 49 ≤ c.red
  blue_ge : 38 ≤ c.blue
  blue_le : c.blue ≤ 191

theorem blend_low_onScale (finite : t.isFinite = true) (nonneg : 0 ≤ value t)
    (le_one : value t ≤ 1) : OnScale (blend Colour.low middle t) := by
  have red := mix_between (a := 49) (b := 255) (by decide) (by decide) finite nonneg le_one
  have blue := mix_between (a := 149) (b := 191) (by decide) (by decide) finite nonneg le_one
  exact ⟨UInt8.le_iff_toNat_le.mpr red.1, UInt8.le_iff_toNat_le.mpr (le_trans (by decide) blue.1),
    UInt8.le_iff_toNat_le.mpr blue.2⟩

theorem blend_high_onScale (finite : t.isFinite = true) (nonneg : 0 ≤ value t)
    (le_one : value t ≤ 1) : OnScale (blend middle Colour.high t) := by
  have red := mix_between (a := 255) (b := 165) (by decide) (by decide) finite nonneg le_one
  have blue := mix_between (a := 191) (b := 38) (by decide) (by decide) finite nonneg le_one
  exact ⟨UInt8.le_iff_toNat_le.mpr (le_trans (by decide) red.1), UInt8.le_iff_toNat_le.mpr blue.1,
    UInt8.le_iff_toNat_le.mpr blue.2⟩

theorem blend_low_start (finite : t.isFinite = true) (zero : value t = 0) :
    blend Colour.low middle t = ⟨49, 54, 149⟩ := by
  have red := mix_start (a := 49) (b := 255) (by decide) (by decide) finite zero
  have green := mix_start (a := 54) (b := 255) (by decide) (by decide) finite zero
  have blue := mix_start (a := 149) (b := 191) (by decide) (by decide) finite zero
  rw [Colour.mk.injEq]
  exact ⟨UInt8.toNat_inj.mp red, UInt8.toNat_inj.mp green, UInt8.toNat_inj.mp blue⟩

theorem blend_high_stop (finite : t.isFinite = true) (one : value t = 1) :
    blend middle Colour.high t = ⟨165, 0, 38⟩ := by
  have red := mix_stop (a := 255) (b := 165) (by decide) (by decide) finite one
  have green := mix_stop (a := 255) (b := 0) (by decide) (by decide) finite one
  have blue := mix_stop (a := 191) (b := 38) (by decide) (by decide) finite one
  rw [Colour.mk.injEq]
  exact ⟨UInt8.toNat_inj.mp red, UInt8.toNat_inj.mp green, UInt8.toNat_inj.mp blue⟩

theorem value_two : (2 : Float).isFinite = true ∧ value 2 = 2 := by
  exact_mod_cast value_ofNat (n := 2) (by decide)

theorem value_255 : (255 : Float).isFinite = true ∧ value 255 = 255 := by
  exact_mod_cast value_ofNat (n := 255) (by decide)

theorem value_double (finite : p.isFinite = true) (nonneg : 0 ≤ value p) (le_one : value p ≤ 1) :
    (p * 2).isFinite = true ∧ 0 ≤ value (p * 2) ∧ value (p * 2) ≤ 2 ∧
      (value p = 0 → value (p * 2) = 0) ∧ (value p = 1 → value (p * 2) = 2) := by
  have double := roundsTo_mul finite value_two.1
  rw [value_two.2] at double
  obtain ⟨isFinite, least, most⟩ := double.within_int 0 2 (by decide) (by decide)
    (by push_cast; linarith) (by push_cast; linarith)
  push_cast at least most
  refine ⟨isFinite, least, most, ?_, ?_⟩
  · intro zero
    rw [zero, zero_mul] at double
    exact_mod_cast (double.eq_int 0 (by decide) (by decide) (by norm_num)).2
  · intro one
    rw [one, one_mul] at double
    exact_mod_cast (double.eq_int 2 (by decide) (by decide) (by norm_num)).2

theorem value_sub_one (finite : t.isFinite = true) (above : 1 < value t) (most : value t ≤ 2) :
    (t - 1).isFinite = true ∧ 0 ≤ value (t - 1) ∧ value (t - 1) ≤ 1 ∧
      (value t = 2 → value (t - 1) = 1) := by
  have rest := roundsTo_sub finite value_one.1
  rw [value_one.2] at rest
  obtain ⟨isFinite, nonneg, le_one⟩ := rest.within_int 0 1 (by decide) (by decide)
    (by push_cast; linarith) (by push_cast; linarith)
  push_cast at nonneg le_one
  refine ⟨isFinite, nonneg, le_one, ?_⟩
  intro two
  rw [two] at rest
  exact_mod_cast (rest.eq_int 1 (by decide) (by decide) (by norm_num)).2

theorem ofValue_of_placed (finite : v.isFinite = true)
    (placed : Placed v low high (position v (low, high))) : OnScale (ofValue (low, high) v) ∧
      (value v ≤ value low → ofValue (low, high) v = ⟨49, 54, 149⟩) ∧
      (value high ≤ value v → ofValue (low, high) v = ⟨165, 0, 38⟩) := by
  obtain ⟨isFinite, nonneg, le_one, start, stop⟩ := placed
  obtain ⟨finiteT, least, most, first, last⟩ := value_double isFinite nonneg le_one
  have half := le_iff_value finiteT value_one.1
  rw [value_one.2] at half
  unfold ofValue
  rw [if_pos finite]
  by_cases lower : position v (low, high) * 2 ≤ 1
  · have le := half.mp lower
    simp only [if_pos lower]
    refine ⟨blend_low_onScale finiteT least le, ?_, ?_⟩
    · intro below
      exact blend_low_start finiteT (first (start below))
    · intro above
      have two := last (stop above)
      linarith
  · have more : 1 < value (position v (low, high) * 2) := not_le.mp (mt half.mpr lower)
    obtain ⟨finiteS, nonneg', le_one', whole⟩ := value_sub_one finiteT more most
    simp only [if_neg lower]
    refine ⟨blend_high_onScale finiteS nonneg' le_one', ?_, ?_⟩
    · intro below
      have zero := first (start below)
      linarith
    · intro above
      exact blend_high_stop finiteS (whole (last (stop above)))

theorem ofGrey_of_placed (finite : v.isFinite = true)
    (placed : Placed v low high (position v (low, high))) :
    (value v ≤ value low → ofGrey (low, high) v = ⟨0, 0, 0⟩) ∧
      (value high ≤ value v → ofGrey (low, high) v = ⟨255, 255, 255⟩) := by
  obtain ⟨isFinite, -, -, start, stop⟩ := placed
  have scaled := roundsTo_mul isFinite value_255.1
  rw [value_255.2] at scaled
  have grey (k : Nat) (few : k ≤ 255) (place : value (position v (low, high)) * 255 = k) :
      ofGrey (low, high) v = ⟨UInt8.ofNat k, UInt8.ofNat k, UInt8.ofNat k⟩ := by
    obtain ⟨whole, same⟩ := scaled.eq_int k (by omega) (by omega) place
    simp only [ofGrey, if_pos finite, level_eq whole (by exact_mod_cast same) few]
  refine ⟨?_, ?_⟩
  · intro below
    exact grey 0 (by decide) (by rw [start below]; norm_num)
  · intro above
    exact grey 255 (by decide) (by rw [stop above]; norm_num)

theorem level_of_none {x : Float} (none : x.toModel.unpack = .notANumber) : level x = 0 := by
  rw [level, Decimal.nearestNat, if_pos (isNaN_of_none none)]
  rfl

theorem black_of_none (finite : v.isFinite = true)
    (none : (position v (low, high)).toModel.unpack = .notANumber) :
    ofValue (low, high) v = ⟨0, 0, 0⟩ ∧ ofGrey (low, high) v = ⟨0, 0, 0⟩ := by
  have double := none_mul none 2
  have mix (a b : Float) : level (a + (b - a) * (position v (low, high) * 2 - 1)) = 0 :=
    level_of_none (add_none (mul_none (none_sub double 1) _) _)
  have upper : ¬ position v (low, high) * 2 ≤ 1 := fun le =>
    absurd ((le_iff _ _).mp le).1 (by rw [isNaN_of_none double]; decide)
  constructor
  · simp only [ofValue, if_pos finite, if_neg upper, blend, mix]
  · simp only [ofGrey, if_pos finite, level_of_none (none_mul none 255)]

end Colour

namespace Drawing

theorem fills_of_cellsOf (x y : Scale) (colours : Grid Colour) :
    (cellsOf x y colours).map Cell.fill = colours.values := by
  have row (line : List Colour × Nat) :
      (line.1.zipIdx.map fun cell => cellAt x y line.2 cell.2 cell.1).map Cell.fill = line.1 := by
    rw [List.map_map]
    exact List.zipIdx_map_fst 0 line.1
  have rows : (cellsOf x y colours).map Cell.fill = colours.rows.zipIdx.flatMap fun line =>
      (line.1.zipIdx.map fun cell => cellAt x y line.2 cell.2 cell.1).map Cell.fill :=
    List.map_flatMap
  simp only [rows, row, Grid.values]
  rw [List.flatMap_def]
  exact congrArg List.flatten (List.zipIdx_map_fst 0 colours.rows)

end Drawing

namespace Colour

open Binary64

variable {v low high : Float}

theorem placed_of_finite (finite : v.isFinite = true) (finiteLow : low.isFinite = true)
    (finiteHigh : high.isFinite = true) (less : low < high)
    (number : (high - low).isFinite = true ∨ (v - low).isFinite = true) :
    Placed v low high (position v (low, high)) := by
  by_cases length : (high - low).isFinite = true
  · exact placed_of_finite_length finite finiteLow finiteHigh less length
  · exact placed_of_finite_distance finite finiteLow finiteHigh less length
      (number.resolve_left length)

theorem black_of_infinite (finite : v.isFinite = true) (finiteLow : low.isFinite = true)
    (finiteHigh : high.isFinite = true) (less : low < high)
    (length : (high - low).isFinite ≠ true) (distance : (v - low).isFinite ≠ true) :
    ofValue (low, high) v = ⟨0, 0, 0⟩ ∧ ofGrey (low, high) v = ⟨0, 0, 0⟩ :=
  black_of_none finite (position_of_infinite finite finiteLow finiteHigh less length distance)

/-- In its own range the largest value is beyond the scale where the length of the range is infinite;
    otherwise no value is. -/
theorem onScale_iff {values : List Float} (range : Bounds.finite values = some (low, high))
    (less : low < high) :
    (∀ v ∈ values, v.isFinite = true → OnScale (ofValue (low, high) v)) ↔
      (high - low).isFinite = true := by
  obtain ⟨_, finiteLow, member, finiteHigh, _⟩ := Bounds.tight_of_finite range
  constructor
  · intro all
    by_contra length
    have scale := all high member finiteHigh
    rw [(black_of_infinite finiteHigh finiteLow finiteHigh less length length).1] at scale
    exact absurd scale.red (by decide)
  · intro length v _ finite
    have placed := placed_of_finite finite finiteLow finiteHigh less (.inl length)
    exact (ofValue_of_placed finite placed).1

theorem drawnRange_of_request (q : Request) (mode : Mode) (step : Option Nat) {layout : Layout}
    (noLow : q.appearance.low = none) (noHigh : q.appearance.high = none)
    (range : layout.content.range = some (low, high)) :
    (q.figure mode step layout).drawnRange = (low, high) := by
  rw [Figure.drawnRange, Request.figure, Request.colourRange]
  by_cases heatmap : q.style = .heatmap
  · simp [heatmap, range, noLow, noHigh]
  · simp [heatmap, range]

theorem fills_of_grid {f : Figure} {cells : Grid Float} (shows : f.content = .grid cells) :
    f.drawing.cells.map (·.fill) = cells.values.map (ofValue f.drawnRange) := by
  simp only [Figure.drawing, shows]
  exact (Drawing.fills_of_cellsOf _ _ _).trans List.map_flatten.symm

/-- A value in a range is drawn in a colour of the scale, with its ends for what is not above the lower
    end and not below the upper end, if its distance from the lower end or the length of the range is
    finite. Otherwise it is drawn in black. So the cells of a figure in its own range, as it is for all
    styles unless an end is given, stay on the scale just if the length of the range is finite. -/
theorem colours_stay_on_scale (v low high : Float) (finite : v.isFinite = true)
    (finiteLow : low.isFinite = true) (finiteHigh : high.isFinite = true) (less : low < high) :
    ((high - low).isFinite = true ∨ (v - low).isFinite = true →
      OnScale (ofValue (low, high) v) ∧
      (v ≤ low → ofValue (low, high) v = ⟨49, 54, 149⟩ ∧ ofGrey (low, high) v = ⟨0, 0, 0⟩) ∧
      (high ≤ v → ofValue (low, high) v = ⟨165, 0, 38⟩ ∧ ofGrey (low, high) v = ⟨255, 255, 255⟩)) ∧
    ((high - low).isFinite = false ∧ (v - low).isFinite = false →
      ofValue (low, high) v = ⟨0, 0, 0⟩ ∧ ofGrey (low, high) v = ⟨0, 0, 0⟩) ∧
    (∀ (q : Request) (mode : Mode) (step : Option Nat) (layout : Layout),
      q.appearance.low = none → q.appearance.high = none →
      layout.content.range = some (low, high) →
      (q.figure mode step layout).drawnRange = (low, high)) ∧
    (∀ (f : Figure) (cells : Grid Float), f.content = .grid cells → f.drawnRange = (low, high) →
      f.drawing.cells.map (·.fill) = cells.values.map (ofValue (low, high)) ∧
      (f.content.range = some (low, high) →
        ((∀ v ∈ cells.values, v.isFinite = true → OnScale (ofValue (low, high) v)) ↔
          (high - low).isFinite = true))) := by
  refine ⟨?_, ?_, ?_, ?_⟩
  · intro number
    have placed := placed_of_finite finite finiteLow finiteHigh less number
    obtain ⟨scale, first, last⟩ := ofValue_of_placed finite placed
    obtain ⟨black, white⟩ := ofGrey_of_placed finite placed
    rw [le_iff_value finite finiteLow, le_iff_value finiteHigh finite]
    exact ⟨scale, fun le => ⟨first le, black le⟩, fun ge => ⟨last ge, white ge⟩⟩
  · rintro ⟨length, distance⟩
    exact black_of_infinite finite finiteLow finiteHigh less (by simp [length]) (by simp [distance])
  · intro q mode step layout noLow noHigh range
    exact drawnRange_of_request q mode step noLow noHigh range
  · intro f cells shows drawn
    refine ⟨drawn ▸ fills_of_grid shows, fun range => ?_⟩
    rw [shows] at range
    exact onScale_iff range less

theorem ends_of_ten : (-3 : Float).isFinite = true ∧ (12 : Float).isFinite = true ∧
    (0 : Float).isFinite = true ∧ (10 : Float).isFinite = true ∧ (0 : Float) < 10 ∧
    ofValue (0, 10) (-3) = ⟨49, 54, 149⟩ ∧ ofValue (0, 10) 12 = ⟨165, 0, 38⟩ := by
  have less : (-3 : Float).isFinite = true := by decide +kernel
  have more : (12 : Float).isFinite = true := by decide +kernel
  have finiteLow : (0 : Float).isFinite = true := by decide +kernel
  have finiteHigh : (10 : Float).isFinite = true := by decide +kernel
  have order : (0 : Float) < 10 := by decide +kernel
  have length : (10 - 0 : Float).isFinite = true := by decide +kernel
  obtain ⟨below, -⟩ := colours_stay_on_scale (-3) 0 10 less finiteLow finiteHigh order
  obtain ⟨above, -⟩ := colours_stay_on_scale 12 0 10 more finiteLow finiteHigh order
  exact ⟨less, more, finiteLow, finiteHigh, order,
    ((below (.inl length)).2.1 (by decide +kernel)).1,
    ((above (.inl length)).2.2 (by decide +kernel)).1⟩

theorem large_range_is_left : (1e308 : Float).isFinite = true ∧ (-1e308 : Float).isFinite = true ∧
    (-1e308 : Float) < 1e308 ∧ (1e308 : Float) ≤ 1e308 ∧
    ofValue (-1e308, 1e308) 1e308 = ⟨0, 0, 0⟩ ∧ ofGrey (-1e308, 1e308) 1e308 = ⟨0, 0, 0⟩ := by
  decide +kernel

end Colour
end FieldPlot
