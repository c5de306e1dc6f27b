import FieldPlot.Header
import Mathlib.Algebra.BigOperators.Group.List.Basic
import Mathlib.Algebra.Order.BigOperators.Group.List

/-!
Lengths of frames. The clamped product of the extents is their product or the largest count, and it
is the product for every shape that an array can address. A recorded frame, channels included, has
the length of the product unless a product on the way leaves the range of counts.
-/
namespace FieldPlot

namespace Word

theorem foldl_mulClamped (factors : List Nat) (a : Nat) :
    factors.foldl mulClamped (min a limit) = min (a * factors.prod) limit := by
  induction factors generalizing a with
  | nil => simp
  | cons e factors ih =>
    have turn : mulClamped (min a limit) e = min (a * e) limit := by
      rcases Nat.le_total a limit with small | large
      · rw [Nat.min_eq_left small, mulClamped]
      · rw [Nat.min_eq_right large, mulClamped]
        cases e with
        | zero => simp
        | succ e =>
          have more : limit ≤ limit * (e + 1) := Nat.le_mul_of_pos_right _ (Nat.succ_pos e)
          have most : limit * (e + 1) ≤ a * (e + 1) := Nat.mul_le_mul_right _ large
          omega
    rw [List.foldl_cons, turn, ih, List.prod_cons, Nat.mul_assoc]

theorem productClamped_eq (factors : List Nat) :
    productClamped factors = min factors.prod limit := by
  have all := foldl_mulClamped factors 1
  rwa [Nat.one_mul, Nat.min_eq_left (by decide)] at all

theorem prod_le_prod_nonzero (shape : List Nat) :
    shape.prod ≤ (shape.filter (· != 0)).prod := by
  induction shape with
  | nil => simp
  | cons e shape ih =>
    by_cases zero : e = 0
    · simp [zero]
    · simpa [zero] using Nat.mul_le_mul_left e ih

theorem addressable_iff (shape : List Nat) :
    Addressable shape ↔ (shape.filter (· != 0)).prod ≤ arrayLimit := by
  rw [Addressable, List.prod_eq_foldl]

theorem mul?_eq_some_iff {a b n : Nat} : mul? a b = some n ↔ n = a * b ∧ a * b ≤ limit := by
  rw [mul?]
  split
  · simp [*, eq_comm]
  · simp [*]

theorem product?_cons (start e : Nat) (factors : List Nat) :
    product? start (e :: factors) = (mul? start e).bind (product? · factors) := rfl

theorem product?_eq_some_iff (start : Nat) (factors : List Nat) (n : Nat) :
    product? start factors = some n ↔ n = start * factors.prod ∧
      ∀ k < factors.length, start * (factors.take (k + 1)).prod ≤ limit := by
  induction factors generalizing start with
  | nil => simp [product?, eq_comm]
  | cons e factors ih =>
    rw [product?_cons, Option.bind_eq_some_iff]
    simp only [mul?_eq_some_iff, ih, List.take_succ_cons, List.prod_cons, List.length_cons,
      ← Nat.mul_assoc]
    constructor
    · rintro ⟨_, ⟨rfl, first⟩, rfl, rest⟩
      refine ⟨rfl, fun k bound => ?_⟩
      cases k with
      | zero => simpa using first
      | succ k => exact rest k (by omega)
    · rintro ⟨rfl, all⟩
      refine ⟨_, ⟨rfl, by simpa using all 0 (by omega)⟩, rfl, fun k bound => ?_⟩
      exact all (k + 1) (by omega)

end Word

namespace Header

theorem frameLength?_eq_some_iff (h : Header) (n : Nat) :
    h.frameLength? = some n ↔ n = h.channels * h.extents.prod ∧
      ∀ k < h.rank, h.channels * (h.extents.take (k + 1)).prod ≤ Word.limit :=
  Word.product?_eq_some_iff h.channels h.extents n

theorem frameLength_of_some {h : Header} {n : Nat} (found : h.frameLength? = some n) :
    h.frameLength = h.channels * h.extents.prod := by
  rw [frameLength, found, Option.getD_some]
  exact ((h.frameLength?_eq_some_iff n).mp found).1

theorem frameLength_of_isSome {h : Header} (found : h.frameLength?.isSome) :
    h.frameLength = h.channels * h.extents.prod := by
  obtain ⟨n, found⟩ := Option.isSome_iff_exists.mp found
  exact frameLength_of_some found

/-- A product that is too large on the way and fits in the end has a factor zero. -/
theorem zero_mem_of_overflow (h : Header) {k : Nat}
    (fits : h.channels * h.extents.prod ≤ Word.limit)
    (beyond : Word.limit < h.channels * (h.extents.take k).prod) : 0 ∈ h.extents := by
  by_contra nonzero
  have split : (h.extents.take k).prod * (h.extents.drop k).prod = h.extents.prod :=
    List.prod_take_mul_prod_drop h.extents k
  have rest : 0 < (h.extents.drop k).prod := by
    rw [List.prod_pos_iff_forall_pos_nat]
    intro e member
    apply Nat.pos_of_ne_zero
    rintro rfl
    exact nonzero (List.mem_of_mem_drop member)
  have more : (h.extents.take k).prod ≤ h.extents.prod := by
    rw [← split]
    exact Nat.le_mul_of_pos_right _ rest
  have larger := Nat.mul_le_mul_left h.channels more
  omega

theorem frameLength_of_lt {h : Header} (bound : h.frameLength < 2 ^ 63) :
    h.frameLength = h.channels * h.extents.prod := by
  cases found : h.frameLength? with
  | none =>
    rw [frameLength, found, Option.getD_none] at bound
    contradiction
  | some n => exact frameLength_of_some found

theorem channels_pos (h : Header) : 0 < h.channels := by
  rw [channels]
  split
  · exact Nat.succ_pos _
  · exact Nat.one_pos

theorem frameLength_of_scalar {h : Header} (rank : h.rank = 0) : h.frameLength = h.channels := by
  rw [frameLength, frameLength?, List.eq_nil_of_length_eq_zero rank]
  rfl

theorem frameLength_of_line {h : Header} (rank : h.rank = 1) :
    h.frameLength = Word.mulClamped h.channels (h.extents.getD 0 0) := by
  obtain ⟨extent, shape⟩ := List.length_eq_one_iff.mp rank
  rw [frameLength, frameLength?, shape, List.getD_cons_zero, Word.mulClamped, Word.product?,
    List.foldlM_cons, Word.mul?]
  split
  · rename_i fits
    rw [Nat.min_eq_left fits]
    rfl
  · rename_i beyond
    rw [Nat.min_eq_right (Nat.le_of_not_le beyond)]
    rfl

theorem elementCount_eq (h : Header) : h.elementCount = min h.extents.prod Word.limit :=
  Word.productClamped_eq h.extents

theorem prod_le_of_addressable (h : Header) (addressable : Word.Addressable h.arrayShape) :
    h.extents.prod ≤ Word.arrayLimit := by
  have bound := (Word.addressable_iff _).mp addressable
  rw [arrayShape, List.filter_reverse, (List.reverse_perm _).prod_eq] at bound
  exact (Word.prod_le_prod_nonzero h.extents).trans bound

theorem elementCount_of_addressable (h : Header) (addressable : Word.Addressable h.arrayShape) :
    h.elementCount = h.extents.prod := by
  have bound := h.prod_le_of_addressable addressable
  have room : Word.arrayLimit ≤ Word.limit := by decide
  rw [elementCount_eq]
  omega

theorem addressable_of_nonzero (h : Header) (nonzero : ∀ e ∈ h.extents, e ≠ 0)
    (bound : h.extents.prod ≤ Word.arrayLimit) : Word.Addressable h.arrayShape := by
  have all : h.extents.reverse.filter (· != 0) = h.extents.reverse := by
    rw [List.filter_eq_self]
    intro e member
    simpa using nonzero e (List.mem_reverse.mp member)
  rw [Word.addressable_iff, arrayShape, all, (List.reverse_perm _).prod_eq]
  exact bound

end Header
end FieldPlot
