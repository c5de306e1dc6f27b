import FieldPlot.Proofs.Multiplication

/-!
Rounding to binary64 numbers. Without a largest exponent the finite numbers are the grid `k · 2 ^ e`
with `|k| ≤ 2 ^ 53` and `-1074 ≤ e`. Shifting keeps what is cut off in two bits, which tell on which
side of the middle it is (`Shows`), so a significand and these bits are rounded to a number on the grid
that none is closer to (`Nearest`).
-/
namespace FieldPlot.Binary64

open Float.Model UnpackedFloat

/-- Whether a binary64 number would have this value, if its exponent were not bounded above. -/
def OnGrid (x : ℚ) : Prop :=
  ∃ k e : ℤ, |k| ≤ 2 ^ 53 ∧ -1074 ≤ e ∧ x = k * 2 ^ e

structure Nearest (exact rounded : ℚ) : Prop where
  onGrid : OnGrid rounded
  closest : ∀ x, OnGrid x → |rounded - exact| ≤ |x - exact|

theorem onGrid_intCast {k : ℤ} (small : |k| ≤ 2 ^ 53) : OnGrid k :=
  ⟨k, 0, small, by decide, by simp⟩

theorem OnGrid.neg {x : ℚ} (grid : OnGrid x) : OnGrid (-x) := by
  obtain ⟨k, e, small, least, rfl⟩ := grid
  exact ⟨-k, e, by rwa [abs_neg], least, by push_cast; ring⟩

namespace Nearest

variable {q q' r r' x : ℚ}

theorem of_onGrid (grid : OnGrid q) : Nearest q q where
  onGrid := grid
  closest := by
    intro x _
    rw [sub_self, abs_zero]
    exact abs_nonneg _

theorem neg (nearest : Nearest q r) : Nearest (-q) (-r) where
  onGrid := nearest.onGrid.neg
  closest := by
    intro x grid
    have other := nearest.closest (-x) grid.neg
    have mirror (y : ℚ) : |(-y) - -q| = |y - q| := by
      rw [← neg_sub_neg, neg_neg, neg_neg, abs_sub_comm]
    rwa [mirror, ← neg_neg x, mirror]

theorem le_of_le (nearest : Nearest q r) (grid : OnGrid x) (below : q ≤ x) : r ≤ x := by
  by_contra! beyond
  have closer := nearest.closest x grid
  rw [abs_of_nonneg (by linarith), abs_of_nonneg (by linarith)] at closer
  linarith

theorem ge_of_ge (nearest : Nearest q r) (grid : OnGrid x) (above : x ≤ q) : x ≤ r := by
  have := nearest.neg.le_of_le grid.neg (neg_le_neg above)
  linarith

theorem eq_of_onGrid (nearest : Nearest q r) (grid : OnGrid q) : r = q :=
  le_antisymm (nearest.le_of_le grid le_rfl) (nearest.ge_of_ge grid le_rfl)

theorem mono (nearest : Nearest q r) (nearest' : Nearest q' r') (less : q < q') : r ≤ r' := by
  by_contra! crossed
  -- Each is at least as close to its own number as the other one is.
  have first := sq_le_sq.mpr (nearest.closest r' nearest'.onGrid)
  have second := sq_le_sq.mpr (nearest'.closest r nearest.onGrid)
  nlinarith

end Nearest

/-- What the significand and its two bits mean in units of the last place. -/
def Shows : ExtendedMantissa → ℚ → Prop
  | ⟨m, false, false⟩, s => s = m
  | ⟨m, false, true⟩, s => m < s ∧ s < m + 1 / 2
  | ⟨m, true, false⟩, s => s = m + 1 / 2
  | ⟨m, true, true⟩, s => m + 1 / 2 < s ∧ s < m + 1

theorem shows_exact (m : Nat) : Shows (.ofMantissaAndAccuracy m .exact) m :=
  rfl

theorem shows_fraction (m : Nat) {num den : Nat} (proper : num < den) :
    Shows (.ofMantissaAndAccuracy m (accuracyOfFraction num den)) (m + num / den) := by
  have positive : (0 : ℚ) < den := by exact_mod_cast Nat.zero_lt_of_lt proper
  have small : (num : ℚ) / den < 1 := (div_lt_one positive).mpr (by exact_mod_cast proper)
  unfold accuracyOfFraction
  split
  · rename_i none
    simp [ExtendedMantissa.ofMantissaAndAccuracy, Shows, none]
  · rename_i some
    have more : (0 : ℚ) < num / den := div_pos (by exact_mod_cast Nat.pos_of_ne_zero some) positive
    have half : (num : ℚ) / den = 1 / 2 * ((2 * num : Nat) : ℚ) / den := by push_cast; ring
    rcases lt_trichotomy (2 * num) den with less | same | beyond
    · have : (num : ℚ) / den < 1 / 2 := by
        rw [div_lt_iff₀ positive]
        have : ((2 * num : Nat) : ℚ) < den := by exact_mod_cast less
        push_cast at this
        linarith
      rw [compare_lt_iff_lt.mpr less]
      exact ⟨by linarith, by linarith⟩
    · have : (num : ℚ) / den = 1 / 2 := by
        rw [div_eq_iff positive.ne', ← same]
        push_cast
        ring
      rw [compare_eq_iff_eq.mpr same]
      exact congrArg _ this
    · have : 1 / 2 < (num : ℚ) / den := by
        rw [lt_div_iff₀ positive]
        have : (den : ℚ) < ((2 * num : Nat) : ℚ) := by exact_mod_cast beyond
        push_cast at this
        linarith
      rw [compare_gt_iff_gt.mpr beyond]
      exact ⟨by linarith, by linarith⟩

namespace Shows

variable {em : ExtendedMantissa} {s : ℚ}

theorem shiftRightOne (shows : Shows em s) : Shows em.shiftRightOne (s / 2) := by
  obtain ⟨m, round, sticky⟩ := em
  obtain ⟨half, even | odd⟩ := m.even_or_odd'
  · subst even
    have quotient : 2 * half / 2 = half := by omega
    cases round <;> cases sticky <;>
      simp [ExtendedMantissa.shiftRightOne, quotient, Shows] at shows ⊢ <;> grind
  · subst odd
    have quotient : (2 * half + 1) / 2 = half := by omega
    cases round <;> cases sticky <;>
      simp [ExtendedMantissa.shiftRightOne, quotient, Shows] at shows ⊢ <;> grind

theorem shiftRight (shows : Shows em s) (n : Nat) : Shows (em >>> n) (s / 2 ^ n) := by
  induction n with
  | zero => simpa [HShiftRight.hShiftRight, Nat.repeat] using shows
  | succ n ih =>
    have next := ih.shiftRightOne
    rwa [div_div, ← pow_succ] at next

theorem roundedMantissa (shows : Shows em s) : |(em.roundedMantissa : ℚ) - s| ≤ 1 / 2 := by
  obtain ⟨m, round, sticky⟩ := em
  have parity : ((m % 2 : Nat) : ℚ) ≤ 1 := by exact_mod_cast Nat.le_of_lt_succ (m.mod_lt two_pos)
  rw [abs_le]
  cases round <;> cases sticky <;>
    simp only [Shows, ExtendedMantissa.roundedMantissa, ExtendedMantissa.accuracy,
      Accuracy.roundToNearestEven, Nat.cast_add, Nat.cast_one] at shows ⊢ <;> grind

theorem floor (shows : Shows em s) : em.mantissa ≤ s ∧ s < em.mantissa + 1 := by
  obtain ⟨m, round, sticky⟩ := em
  cases round <;> cases sticky <;> simp only [Shows] at shows ⊢ <;> grind

end Shows

theorem le_of_half {s : ℚ} {m : ℤ} (half : |m - s| ≤ 1 / 2) (n : ℤ) : |m - s| ≤ |n - s| := by
  by_cases same : n = m
  · rw [same]
  · have apart : (1 : ℚ) ≤ |(n : ℚ) - m| := by
      exact_mod_cast Int.one_le_abs (sub_ne_zero.mpr same)
    have around := abs_sub_le (n : ℚ) s m
    rw [abs_sub_comm s] at around
    linarith

/-- The whole number of units that is closest is closest among all numbers on the grid: those in
    between are below the number itself. -/
theorem nearest_of_half {q : ℚ} {m : Nat} {e : ℤ} (least : -1074 ≤ e) (fits : m ≤ 2 ^ 53)
    (full : e = -1074 ∨ 2 ^ 52 * 2 ^ e ≤ q) (half : |m - q / 2 ^ e| ≤ 1 / 2) :
    Nearest q (m * 2 ^ e) := by
  have unit : (2 : ℚ) ^ e ≠ 0 := by positivity
  have multiple (n : ℤ) : |(m : ℚ) * 2 ^ e - q| ≤ |(n : ℚ) * 2 ^ e - q| := by
    have scaled (k : ℚ) : |k * 2 ^ e - q| = |k - q / 2 ^ e| * |2 ^ e| := by
      rw [← abs_mul, sub_mul, div_mul_cancel₀ _ unit]
    rw [scaled, scaled]
    exact mul_le_mul_of_nonneg_right (le_of_half (m := m) half n) (abs_nonneg _)
  refine ⟨⟨m, e, by simpa using mod_cast fits, least, by simp⟩, ?_⟩
  rintro x ⟨k, j, small, low, rfl⟩
  by_cases coarse : e ≤ j
  · have whole : (k : ℚ) * 2 ^ j = ((k * 2 ^ (j - e).toNat : ℤ) : ℚ) * 2 ^ e := by
      push_cast
      rw [mul_assoc, ← zpow_natCast, ← zpow_add₀ two_ne_zero]
      congr
      omega
    rw [whole]
    exact multiple _
  · have enough := full.resolve_left (by omega)
    have below : (k : ℚ) * 2 ^ j ≤ 2 ^ 52 * 2 ^ e := by
      have most : (k : ℚ) ≤ 2 ^ 53 := by exact_mod_cast (le_abs_self k).trans small
      have finer : (2 : ℚ) ^ j ≤ 2 ^ (e - 1) := zpow_le_zpow_right₀ one_le_two (by omega)
      calc (k : ℚ) * 2 ^ j ≤ 2 ^ 53 * 2 ^ j := by gcongr
        _ ≤ 2 ^ 53 * 2 ^ (e - 1) := by gcongr
        _ = 2 ^ 52 * 2 ^ e := by rw [zpow_sub_one₀ two_ne_zero]; ring
    have between := multiple (2 ^ 52)
    rw [Int.cast_pow, Int.cast_ofNat] at between
    generalize (2 : ℚ) ^ 52 * 2 ^ e = step at enough below between
    calc |(m : ℚ) * 2 ^ e - q| ≤ |step - q| := between
      _ = q - step := by rw [abs_sub_comm, abs_of_nonneg (sub_nonneg.mpr enough)]
      _ ≤ q - k * 2 ^ j := sub_le_sub_left below q
      _ ≤ |k * 2 ^ j - q| := by rw [abs_sub_comm]; exact le_abs_self _

def factor : Sign → ℚ
  | .negative => -1
  | .positive => 1

/-- The value of a finite number; what is not finite has none. -/
def exact : UnpackedFloat → ℚ
  | .finite sign m e _ => factor sign * (m * 2 ^ e)
  | _ => 0

structure Rounds (q : ℚ) (u : UnpackedFloat) : Prop where
  isFinite : u.isFinite = true
  canonical : Canonical u
  nearest : Nearest q (exact u)

theorem Nearest.factor_mul {q r : ℚ} (sign : Sign) (nearest : Nearest q r) :
    Nearest (factor sign * q) (factor sign * r) := by
  cases sign with
  | positive => simpa [factor] using nearest
  | negative => simpa [factor] using nearest.neg

theorem targetExponent_eq (m : Nat) (e : ℤ) :
    Format.binary64.targetExponent (totalExponent m e) = max (m.log2 - 52 + e) (-1074) := by
  simp only [Format.targetExponent, totalExponent, Format.minExponent, Format.mantissaBits]
  omega

/-- Rounding may leave one bit too many, and a second shift takes it away. -/
theorem carry {m : Nat} {e : ℤ} (least : -1074 ≤ e) (fits : m ≤ 2 ^ 53)
    (full : e = -1074 ∨ 2 ^ 52 ≤ m) (positive : 0 < m) : ∃ m' e', 0 < m' ∧
      shiftToTargetExponent Format.binary64 m e .exact = (⟨m', false, false⟩, e') ∧
      Format.binary64.targetExponent (totalExponent m' e') = e' ∧
      (m' : ℚ) * 2 ^ e' = m * 2 ^ e := by
  have canonical {m : Nat} {e : ℤ} (least : -1074 ≤ e) (fits : m < 2 ^ 53)
      (full : e = -1074 ∨ 2 ^ 52 ≤ m) (positive : 0 < m) :
      Format.binary64.targetExponent (totalExponent m e) = e := by
    have low : m.log2 < 53 := (Nat.log2_lt positive.ne').mpr fits
    have high : e = -1074 ∨ 52 ≤ m.log2 := full.imp_right (Nat.le_log2 positive.ne').mpr
    rw [targetExponent_eq]
    omega
  rcases fits.lt_or_eq with small | rfl
  · have same := canonical least small full positive
    have shift := shiftToTargetExponent_exact 0 e positive.ne' same
    rw [Nat.pow_zero, Nat.mul_one, Int.natCast_zero, Int.sub_zero] at shift
    exact ⟨m, e, positive, shift, same, rfl⟩
  · have next : Format.binary64.targetExponent (totalExponent (2 ^ 52) (e + 1)) = e + 1 :=
      canonical (by omega) (by decide) (.inr le_rfl) (by decide)
    have shift := shiftToTargetExponent_exact 1 (e + 1) (by decide) next
    rw [Nat.cast_one, add_sub_cancel_right] at shift
    refine ⟨2 ^ 52, e + 1, by decide, shift, next, ?_⟩
    rw [zpow_add_one₀ two_ne_zero]
    push_cast
    ring

theorem mantissa_of_accuracy (m : Nat) (accuracy : Accuracy) :
    (ExtendedMantissa.ofMantissaAndAccuracy m accuracy).mantissa = m := by
  rcases accuracy with _ | (_ | _ | _) <;> rfl

/-- Shifted to its target exponent a significand has at most 53 bits, and just as many where it is not
    at the least exponent. -/
theorem bounds_of_shift {m n : Nat} {s : ℚ} (floor : m ≤ s ∧ s < m + 1) :
    (m.log2 ≤ 52 + n → s / 2 ^ n < 2 ^ 53) ∧ (m.log2 = 52 + n → 2 ^ 52 ≤ s / 2 ^ n) := by
  have scale : (0 : ℚ) < 2 ^ n := by positivity
  constructor
  · intro few
    rw [div_lt_iff₀ scale, ← pow_add]
    have below : m + 1 ≤ 2 ^ (53 + n) :=
      Nat.lt_log2_self.trans_le (Nat.pow_le_pow_right two_pos (by omega))
    have : ((m : ℚ) + 1) ≤ 2 ^ (53 + n) := by exact_mod_cast below
    linarith
  · intro many
    rw [le_div_iff₀ scale, ← pow_add]
    have positive : m ≠ 0 := by
      rintro rfl
      simp at many
      omega
    have above : 2 ^ (52 + n) ≤ m := (Nat.le_log2 positive).mp many.ge
    have : (2 : ℚ) ^ (52 + n) ≤ m := by exact_mod_cast above
    linarith

theorem shiftToTargetExponent_zero (e : ℤ) :
    (shiftToTargetExponent Format.binary64 0 e .exact).1 = ⟨0, false, false⟩ := by
  have shifted := shiftRight_exact 0
  simp only [Nat.zero_mul] at shifted
  exact shifted _

theorem rounds_of_shift (sign : Sign) {m : Nat} {e t : ℤ} {accuracy : Accuracy}
    {em : ExtendedMantissa} {q : ℚ}
    (shift : shiftToTargetExponent Format.binary64 m e accuracy = (em, t)) (least : -1074 ≤ t)
    (fits : em.roundedMantissa ≤ 2 ^ 53) (full : t = -1074 ∨ 2 ^ 52 ≤ em.roundedMantissa)
    (nearest : Nearest q (em.roundedMantissa * 2 ^ t)) :
    Rounds (factor sign * q) (roundWithAccuracy Format.binary64 sign m e accuracy) := by
  rcases Nat.eq_zero_or_pos em.roundedMantissa with none | some
  · have zero : roundWithAccuracy Format.binary64 sign m e accuracy = .zero sign := by
      simp only [roundWithAccuracy, shift, none, shiftToTargetExponent_zero, dite_true]
    rw [none, Nat.cast_zero, zero_mul] at nearest
    rw [zero]
    refine ⟨rfl, trivial, ?_⟩
    have rounded := nearest.factor_mul sign
    rwa [mul_zero] at rounded
  · obtain ⟨m', e', positive, again, canonical, same⟩ := carry least fits full some
    have finite : roundWithAccuracy Format.binary64 sign m e accuracy =
        .finite sign m' e' positive := by
      simp only [roundWithAccuracy, shift, again, positive.ne', dite_false]
    rw [finite]
    refine ⟨rfl, canonical, ?_⟩
    rw [exact, same]
    exact nearest.factor_mul sign

/-- A number is rounded to a closest one, if its exponent is not above the one that its format asks
    for. -/
theorem rounds_roundWithAccuracy (sign : Sign) {m : Nat} {e : ℤ} {accuracy : Accuracy} {s : ℚ}
    (shows : Shows (.ofMantissaAndAccuracy m accuracy) s)
    (ready : e ≤ Format.binary64.targetExponent (totalExponent m e)) :
    Rounds (factor sign * (s * 2 ^ e)) (roundWithAccuracy Format.binary64 sign m e accuracy) := by
  have floor := shows.floor
  rw [mantissa_of_accuracy] at floor
  have target := targetExponent_eq m e
  obtain ⟨n, amount⟩ := Int.le.dest ready
  rw [target] at amount
  have half := (shows.shiftRight n).roundedMantissa
  obtain ⟨upper, lower⟩ := bounds_of_shift (n := n) floor
  have units : s * 2 ^ e / 2 ^ (e + n) = s / 2 ^ n := by
    rw [zpow_add₀ two_ne_zero, zpow_natCast]
    field_simp
  have near := abs_le.mp half
  have least : -1074 ≤ e + n := amount ▸ le_max_right _ _
  have few := upper (by omega)
  have normal : e + n = -1074 ∨ (2 : ℚ) ^ 52 ≤ s / 2 ^ n := by
    by_cases same : e + n = -1074
    · exact .inl same
    · exact .inr (lower (by omega))
  have shift : shiftToTargetExponent Format.binary64 m e accuracy =
      (ExtendedMantissa.ofMantissaAndAccuracy m accuracy >>> n, e + n) := by
    rw [shiftToTargetExponent, shiftToExponent, target, ← amount, add_sub_cancel_left,
      Int.toNat_natCast]
  generalize ExtendedMantissa.ofMantissaAndAccuracy m accuracy >>> n = em at *
  have fits : em.roundedMantissa ≤ 2 ^ 53 := by
    have : (em.roundedMantissa : ℚ) < 2 ^ 53 + 1 := by linarith
    exact Nat.lt_succ_iff.mp (by exact_mod_cast this)
  refine rounds_of_shift sign shift least fits (normal.imp_right ?_)
    (nearest_of_half least fits (normal.imp_right ?_) (by rwa [units]))
  · intro many
    have : (2 : ℚ) ^ 52 < em.roundedMantissa + 1 := by linarith
    exact Nat.lt_succ_iff.mp (by exact_mod_cast this)
  · intro many
    rwa [← units, le_div_iff₀ (by positivity)] at many

end FieldPlot.Binary64
