import FieldPlot.Aggregation
import Mathlib

/-!
Orders with values that are no numbers. Binary64 numbers are such an order: comparing them is
comparing their class, then their exponent and then their significand. Both zeros have one place.
-/
namespace FieldPlot

/-- All numbers compare, a value that is no number with none, and one number is below all others. -/
structure NumberOrder {α : Type} [LE α] (isNone : α → Bool) (least : α) : Prop where
  total : ∀ a b : α, isNone a = false → isNone b = false → a ≤ b ∨ b ≤ a
  trans : ∀ a b c : α, a ≤ b → b ≤ c → a ≤ c
  number_left : ∀ a b : α, a ≤ b → isNone a = false
  number_right : ∀ a b : α, a ≤ b → isNone b = false
  number_least : isNone least = false
  least_le : ∀ a : α, isNone a = false → least ≤ a

/-- Both are no numbers, or neither is below the other. -/
def SameNumber {α : Type} [LE α] (isNone : α → Bool) (a b : α) : Prop :=
  isNone a = true ∧ isNone b = true ∨ a ≤ b ∧ b ≤ a

namespace Binary64

open Float.Model

theorem unpack_injective {a b : Float} (same : a.toModel.unpack = b.toModel.unpack) : a = b := by
  have bits := (UnpackedFloat.unpack_inj_of_valid a.toModel.valid b.toModel.valid).mp same
  exact Float.toBits_inj.mp (UInt64.toBitVec_inj.mp bits)

/-- Where a number is among all numbers. Of a value that is no number it means nothing. -/
def rank : UnpackedFloat → Int ×ₗ Int ×ₗ Int
  | .notANumber => toLex (0, toLex (0, 0))
  | .infinity .negative => toLex (-2, toLex (0, 0))
  | .finite .negative m e _ => toLex (-1, toLex (-e, -m))
  | .zero _ => toLex (0, toLex (0, 0))
  | .finite .positive m e _ => toLex (1, toLex (e, m))
  | .infinity .positive => toLex (2, toLex (0, 0))

theorem then_isLE_iff (e e' : Int) (m m' : Nat) :
    ((compare e e').then (compare m m')).isLE = true ↔ e < e' ∨ e = e' ∧ m ≤ m' := by
  rcases lt_trichotomy e e' with less | same | more
  · simp [compare_lt_iff_lt.mpr less, less]
  · simp [same, Nat.isLE_compare]
  · simp [compare_gt_iff_gt.mpr more, more.ne', more.le]

theorem then_isGE_iff (e e' : Int) (m m' : Nat) :
    ((compare e e').then (compare m m')).isGE = true ↔ e' < e ∨ e = e' ∧ m' ≤ m := by
  rcases lt_trichotomy e e' with less | same | more
  · simp [compare_lt_iff_lt.mpr less, less.ne, less.le]
  · simp [same, Nat.isGE_compare]
  · simp [compare_gt_iff_gt.mpr more, more]

theorem sign_isLE_iff (sign sign' : UnpackedFloat.Sign) :
    (compare sign sign').isLE = true ↔ rank (.infinity sign) ≤ rank (.infinity sign') := by
  cases sign <;> cases sign' <;> decide

theorem le_iff_rank (a b : UnpackedFloat) :
    a.le b = true ↔ a.isNaN = false ∧ b.isNaN = false ∧ rank a ≤ rank b := by
  unfold UnpackedFloat.le
  -- The class decides, but for two finite numbers of one sign.
  rcases a with ⟨_ | _⟩ | _ | _ | ⟨_ | _, m, e, _⟩ <;>
  rcases b with ⟨_ | _⟩ | _ | _ | ⟨_ | _, m', e', _⟩ <;>
  simp [UnpackedFloat.compare, UnpackedFloat.isNaN, rank, Prod.Lex.toLex_le_toLex, sign_isLE_iff,
    then_isLE_iff, then_isGE_iff]

theorem le_iff (a b : Float) : a ≤ b ↔
    a.isNaN = false ∧ b.isNaN = false ∧ rank a.toModel.unpack ≤ rank b.toModel.unpack :=
  Iff.trans decide_eq_true_iff (le_iff_rank a.toModel.unpack b.toModel.unpack)

theorem rank_least (u : UnpackedFloat) : rank (.infinity .negative) ≤ rank u := by
  rcases u with ⟨_ | _⟩ | _ | _ | ⟨_ | _, m, e, _⟩ <;> simp [rank, Prod.Lex.toLex_le_toLex]

theorem numberOrder : NumberOrder Float.isNaN (-(1 / 0)) where
  total := by
    intro a b number number'
    simp only [le_iff, number, number', true_and]
    exact le_total _ _
  trans := by
    intro a b c
    simp only [le_iff]
    rintro ⟨number, _, below⟩ ⟨_, number', above⟩
    exact ⟨number, number', below.trans above⟩
  number_left := fun a b below => ((le_iff a b).mp below).1
  number_right := fun a b below => ((le_iff a b).mp below).2.1
  number_least := rfl
  least_le := by
    intro a number
    exact (le_iff _ a).mpr ⟨rfl, number, rank_least a.toModel.unpack⟩

end Binary64
end FieldPlot
