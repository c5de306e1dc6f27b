import FieldPlot.Decimal.Literal
import FieldPlot.Proofs.Utf8
import FieldPlot.Text.Numeral
import Mathlib.Data.Bool.AllAny
import Mathlib.Tactic.IntervalCases

/-!
Numbers as texts. The digits of a number in the range are read as this number, also behind a plus sign
and behind zeros, and nothing else is read as a number (`read_eq_ok_iff`). A text that is read as a
decimal number has no characters but those that decimal literals are made of, so neither separators nor
blanks nor the units of time.
-/
namespace FieldPlot

namespace Text.Numeral

theorem digitValue?_of_isDigit {c : Char} (digit : c.isDigit = true) :
    digitValue? 10 c = some (c.toNat - '0'.toNat) := by
  have between : '0' ≤ c ∧ c ≤ '9' := by simpa [Char.isDigit, Char.le_def] using digit
  have low : '0'.toNat ≤ c.toNat := between.1
  have high : c.toNat ≤ '9'.toNat := between.2
  have small : c.toNat - '0'.toNat < 10 := Nat.lt_of_le_of_lt (Nat.sub_le_sub_right high _) (by decide)
  rw [digitValue?, if_pos between]
  simpa using small

theorem readDigits_of_le (bound n : Nat) {s : List Char} (digits : ∀ c ∈ s, c.isDigit = true)
    (inside : Nat.ofDigitChars 10 s n ≤ bound) :
    readDigits 10 bound n s = .ok (Nat.ofDigitChars 10 s n) := by
  induction s generalizing n with
  | nil => rw [Nat.ofDigitChars_nil]; rfl
  | cons c s ih =>
    obtain ⟨digit, others⟩ := List.forall_mem_cons.mp digits
    rw [Nat.ofDigitChars_cons, Nat.mul_comm] at inside ⊢
    -- Further digits only make a number larger, so no step on the way is out of range.
    have here : n * 10 + (c.toNat - '0'.toNat) ≤ bound := by
      rw [Nat.ofDigitChars_eq_ofDigitChars_zero] at inside
      have := Nat.le_mul_of_pos_left (n * 10 + (c.toNat - '0'.toNat)) (Nat.pow_pos (n := s.length) (show 0 < 10 by decide))
      omega
    rw [readDigits, digitValue?_of_isDigit digit]
    simp only [if_pos here]
    exact ih _ others inside

theorem readDigits_of_gt (bound n : Nat) {s : List Char} (digits : ∀ c ∈ s, c.isDigit = true)
    (inside : n ≤ bound) (beyond : bound < Nat.ofDigitChars 10 s n) :
    readDigits 10 bound n s = .error .tooLarge := by
  induction s generalizing n with
  | nil =>
    rw [Nat.ofDigitChars_nil] at beyond
    omega
  | cons c s ih =>
    obtain ⟨digit, others⟩ := List.forall_mem_cons.mp digits
    rw [Nat.ofDigitChars_cons, Nat.mul_comm] at beyond
    rw [readDigits, digitValue?_of_isDigit digit]
    by_cases here : n * 10 + (c.toNat - '0'.toNat) ≤ bound
    · simp only [if_pos here]
      exact ih _ others here beyond
    · simp only [if_neg here]

theorem isDigit_of_mem_write {n : Nat} {c : Char} (member : c ∈ write n) : c.isDigit = true :=
  Nat.isDigit_of_mem_toDigits (by decide) (by decide) member

theorem read_of_unsigned {base bound : Nat} {c : Char} (s : List Char) (noSign : c ≠ '+') :
    read base bound (c :: s) = readDigits base bound 0 (c :: s) := by
  unfold read
  split
  · contradiction
  · simp_all
  · simp_all
  · rfl

theorem read_write_eq (bound n : Nat) : read 10 bound (write n) = readDigits 10 bound 0 (write n) := by
  cases shape : write n with
  | nil => exact absurd shape Nat.toDigits_ne_nil
  | cons c s =>
    apply read_of_unsigned
    rintro rfl
    have sign : '+'.isDigit = true := isDigit_of_mem_write (shape ▸ List.mem_cons_self)
    contradiction

theorem read_write {bound n : Nat} (inside : n ≤ bound) : read 10 bound (write n) = .ok n := by
  have value : Nat.ofDigitChars 10 (write n) 0 = n :=
    Nat.ofDigitChars_toDigits (by decide) (by decide)
  have done := readDigits_of_le bound 0 (fun _ => isDigit_of_mem_write) (value.symm ▸ inside)
  rw [read_write_eq, done, value]

theorem read_write_of_gt {bound n : Nat} (beyond : bound < n) :
    read 10 bound (write n) = .error .tooLarge := by
  have value : Nat.ofDigitChars 10 (write n) 0 = n :=
    Nat.ofDigitChars_toDigits (by decide) (by decide)
  rw [read_write_eq]
  exact readDigits_of_gt bound 0 (fun _ => isDigit_of_mem_write) (Nat.zero_le _)
    (value.symm ▸ beyond)

theorem isDigit_of_digitValue? {c : Char} {d : Nat} (found : digitValue? 10 c = some d) :
    c.isDigit = true := by
  obtain ⟨value, small⟩ := Option.filter_eq_some_iff.mp found
  have small : d < 10 := by simpa using small
  split at value
  · rename_i between
    simpa [Char.isDigit, Char.le_def] using between
  · -- A letter stands for ten at least.
    split at value
    · obtain rfl := Option.some.inj value
      omega
    · split at value
      · obtain rfl := Option.some.inj value
        omega
      · contradiction

theorem isDigit_of_readDigits {bound n m : Nat} {s : List Char}
    (done : readDigits 10 bound n s = .ok m) : ∀ c ∈ s, c.isDigit = true := by
  induction s generalizing n with
  | nil => simp
  | cons c s ih =>
    rw [readDigits] at done
    split at done
    · contradiction
    · rename_i d found
      split at done
      · exact List.forall_mem_cons.mpr ⟨isDigit_of_digitValue? found, ih done⟩
      · contradiction

theorem readDigits_eq_ok_iff {bound n m : Nat} {s : List Char} (inside : n ≤ bound) :
    readDigits 10 bound n s = .ok m ↔
      (∀ c ∈ s, c.isDigit = true) ∧ Nat.ofDigitChars 10 s n = m ∧ m ≤ bound := by
  constructor
  · intro done
    have digits := isDigit_of_readDigits done
    by_cases fits : Nat.ofDigitChars 10 s n ≤ bound
    · obtain rfl := Except.ok.inj ((readDigits_of_le bound n digits fits).symm.trans done)
      exact ⟨digits, rfl, fits⟩
    · rw [readDigits_of_gt bound n digits inside (Nat.lt_of_not_le fits)] at done
      contradiction
  · rintro ⟨digits, rfl, fits⟩
    exact readDigits_of_le bound n digits fits

structure Digits (n : Nat) (s : List Char) : Prop where
  filled : s ≠ []
  digits : ∀ c ∈ s, c.isDigit = true
  value : Nat.ofDigitChars 10 s 0 = n

inductive Spelled (n : Nat) : List Char → Prop where
  | unsigned {s : List Char} (digits : Digits n s) : Spelled n s
  | signed {s : List Char} (digits : Digits n s) : Spelled n ('+' :: s)

theorem readDigits_zero_eq_ok_iff {bound n : Nat} {s : List Char} (filled : s ≠ []) :
    readDigits 10 bound 0 s = .ok n ↔ Digits n s ∧ n ≤ bound := by
  rw [readDigits_eq_ok_iff (Nat.zero_le bound)]
  exact ⟨fun ⟨digits, value, fits⟩ => ⟨⟨filled, digits, value⟩, fits⟩,
    fun ⟨digits, fits⟩ => ⟨digits.digits, digits.value, fits⟩⟩

theorem read_of_signed {base bound : Nat} {s : List Char} (filled : s ≠ []) :
    read base bound ('+' :: s) = readDigits base bound 0 s := by
  cases s with
  | nil => contradiction
  | cons c s => rfl

theorem read_eq_ok_iff {bound n : Nat} {s : List Char} :
    read 10 bound s = .ok n ↔ Spelled n s ∧ n ≤ bound := by
  constructor
  · intro done
    cases s with
    | nil => contradiction
    | cons c s =>
      by_cases sign : c = '+'
      · subst sign
        have filled : s ≠ [] := by
          rintro rfl
          contradiction
        rw [read_of_signed filled, readDigits_zero_eq_ok_iff filled] at done
        exact ⟨.signed done.1, done.2⟩
      · rw [read_of_unsigned s sign, readDigits_zero_eq_ok_iff (List.cons_ne_nil c s)] at done
        exact ⟨.unsigned done.1, done.2⟩
  · rintro ⟨spelled, fits⟩
    cases spelled with
    | unsigned digits =>
      obtain ⟨c, s, rfl⟩ := List.exists_cons_of_ne_nil digits.filled
      have noSign : c ≠ '+' := by
        rintro rfl
        exact absurd (digits.digits '+' List.mem_cons_self) (by decide)
      rw [read_of_unsigned s noSign]
      exact (readDigits_zero_eq_ok_iff digits.filled).mpr ⟨digits, fits⟩
    | signed digits =>
      rw [read_of_signed digits.filled]
      exact (readDigits_zero_eq_ok_iff digits.filled).mpr ⟨digits, fits⟩

end Text.Numeral

namespace Decimal.Literal

def IsPart (c : Char) : Prop :=
  c.toLower ∈ "0123456789+-.einftya".toList

instance (c : Char) : Decidable (IsPart c) :=
  inferInstanceAs (Decidable (_ ∈ _))

theorem IsPart.of_isDigit {c : Char} (digit : isDigit c = true) : IsPart c := by
  simp only [isDigit, Bool.and_eq_true, decide_eq_true_eq] at digit
  have low : 48 ≤ c.toNat := digit.1
  have high : c.toNat ≤ 57 := digit.2
  rw [← Char.ofNat_toNat c]
  generalize c.toNat = n at low high
  interval_cases n <;> decide

theorem IsPart.not_isBlank {c : Char} (part : IsPart c) : Text.isBlank c = false := by
  by_cases capital : c.val ≥ 'A'.val ∧ c.val ≤ 'Z'.val
  · have low : 65 ≤ c.toNat := capital.1
    have high : c.toNat ≤ 90 := capital.2
    rw [← Char.ofNat_toNat c]
    generalize c.toNat = n at low high
    interval_cases n <;> decide
  · have same : c.toLower = c := dif_neg capital
    rw [IsPart, same] at part
    have none : ∀ d ∈ "0123456789+-.einftya".toList, Text.isBlank d = false :=
      List.all_iff_forall_prop.mp (by decide)
    exact none c part

theorem parts_of_sign {s : List Char} (rest : ∀ c ∈ (splitSign s).2, IsPart c) :
    ∀ c ∈ s, IsPart c := by
  unfold splitSign at rest
  split at rest
  · exact List.forall_mem_cons.mpr ⟨by decide, rest⟩
  · exact List.forall_mem_cons.mpr ⟨by decide, rest⟩
  · exact rest

theorem parts_of_exponent {s : List Char} {e : Int} (done : readExponent s = some e) :
    ∀ c ∈ s, IsPart c := by
  cases s with
  | nil => simp
  | cons c rest =>
    rcases sign : splitSign rest with ⟨negative, digits⟩
    simp only [readExponent, sign] at done
    split at done
    · rename_i letter
      split at done
      · rename_i numbers
        have all : ∀ d ∈ digits, IsPart d := fun d member =>
          .of_isDigit (List.all_eq_true.mp numbers.2 d member)
        have first : IsPart c := by
          rcases letter with rfl | rfl <;> decide
        exact List.forall_mem_cons.mpr ⟨first, parts_of_sign (sign ▸ all)⟩
      · contradiction
    · contradiction

theorem parts_of_magnitude {negative : Bool} {s : List Char} {literal : Literal}
    (done : readMagnitude negative s = some literal) : ∀ c ∈ s, IsPart c := by
  have digits : ∀ t : List Char, (∀ c ∈ t.dropWhile isDigit, IsPart c) → ∀ c ∈ t, IsPart c := by
    intro t rest
    rw [← List.takeWhile_append_dropWhile (p := isDigit) (l := t), List.forall_mem_append]
    refine ⟨fun c member => .of_isDigit ?_, rest⟩
    exact List.all_eq_true.mp List.all_takeWhile c member
  have behind : ∀ (nothing : Prop) [Decidable nothing] (rest : List Char) (f : Int → Literal),
      (if nothing then none else (readExponent rest).map f) = some literal →
      ∀ c ∈ rest, IsPart c := by
    intro nothing _ rest f done
    split at done
    · contradiction
    · obtain ⟨e, exponent, _⟩ := Option.map_eq_some_iff.mp done
      exact parts_of_exponent exponent
  apply digits
  simp only [readMagnitude] at done
  split at done
  · rename_i more point
    rw [point]
    exact List.forall_mem_cons.mpr ⟨by decide, digits more (behind _ _ _ done)⟩
  · exact behind _ _ _ done

/-- A text that is read holds something, and nothing but parts of a literal. -/
theorem parts_of_read {s : List Char} {literal : Literal} (done : read s = .ok literal) :
    s ≠ [] ∧ ∀ c ∈ s, IsPart c := by
  have word : ∀ w rest : List Char, String.ofList (rest.map Char.toLower) = String.ofList w →
      (∀ c ∈ w, c ∈ "0123456789+-.einftya".toList) → ∀ c ∈ rest, IsPart c := by
    intro w rest same letters c member
    have spelled := String.ofList_injective same
    exact letters _ (spelled ▸ List.mem_map_of_mem member)
  rcases sign : splitSign s with ⟨negative, rest⟩
  simp only [read, sign] at done
  split at done
  · contradiction
  · rename_i some
    refine ⟨some, parts_of_sign (sign ▸ ?_)⟩
    split at done
    · rename_i infinite
      rcases infinite with inf | infinity
      · exact word "inf".toList rest inf (List.all_iff_forall_prop.mp (by decide))
      · exact word "infinity".toList rest infinity (List.all_iff_forall_prop.mp (by decide))
    · split at done
      · rename_i nan
        exact word "nan".toList rest nan (List.all_iff_forall_prop.mp (by decide))
      · split at done
        · rename_i magnitude
          exact parts_of_magnitude magnitude
        · contradiction

end Decimal.Literal
end FieldPlot
