import FieldPlot.Colour
import FieldPlot.Decimal.Shortest
import FieldPlot.Proofs.Writing

/-!
Cells of tables. Numbers are written with digits, a sign, a point and the letters of `NaN` and `inf`,
and colours with `#` and hexadecimal digits. So a written cell is never empty and needs no quotes, and
it does not begin with a byte order mark. A colour is read as it was written.
-/
namespace FieldPlot

def cellCharacters : List Char :=
  "#-.0123456789Nabcdefin".toList

structure IsCell (s : List Char) : Prop where
  filled : s ≠ []
  characters : ∀ c ∈ s, c ∈ cellCharacters

namespace IsCell

variable {s : List Char}

theorem of_all (filled : s ≠ []) (all : (s.all fun c => c ∈ cellCharacters) = true) : IsCell s :=
  ⟨filled, List.all_iff_forall_prop.mp all⟩

theorem plain (cell : IsCell s) : Plain s := by
  have solid : ∀ c ∈ cellCharacters, c ≠ ',' ∧ c ≠ '"' ∧ Text.isBlank c = false :=
    List.all_iff_forall_prop.mp (by decide)
  exact Plain.of_solid cell.filled fun c member => solid c (cell.characters c member)

theorem unmarked (cell : IsCell s) : s.head? ≠ some '\uFEFF' := by
  intro marked
  exact absurd (cell.characters _ (List.mem_of_head? marked)) (by decide)

theorem append {t : List Char} (cell : IsCell s) (rest : ∀ c ∈ t, c ∈ cellCharacters) :
    IsCell (s ++ t) :=
  ⟨List.append_ne_nil_of_left_ne_nil cell.filled t, List.forall_mem_append.mpr ⟨cell.characters, rest⟩⟩

end IsCell

theorem cellCharacter_of_isDigit {c : Char} (digit : c.isDigit = true) : c ∈ cellCharacters := by
  have between : '0' ≤ c ∧ c ≤ '9' := by simpa [Char.isDigit, Char.le_def] using digit
  have low : 48 ≤ c.toNat := between.1
  have high : c.toNat ≤ 57 := between.2
  rw [← Char.ofNat_toNat c]
  generalize c.toNat = n at low high
  interval_cases n <;> decide

theorem digits_of_toDigits {n : Nat} : ∀ c ∈ Nat.toDigits 10 n, c ∈ cellCharacters := by
  intro c member
  exact cellCharacter_of_isDigit (Nat.isDigit_of_mem_toDigits (by decide) (by decide) member)

theorem isCell_numeral (n : Nat) : IsCell (Text.Numeral.write n) :=
  ⟨Nat.toDigits_ne_nil, digits_of_toDigits⟩

namespace Decimal

theorem Scaled.isCell_layout (d : Scaled) : IsCell d.layout := by
  have zeros : ∀ n, ∀ c ∈ List.replicate n '0', c ∈ cellCharacters := by
    intro n c member
    rw [List.eq_of_mem_replicate member]
    decide
  unfold layout
  split
  · exact (isCell_numeral d.digits).append (zeros _)
  · -- The digits are padded so that one is left in front of the point.
    extract_lets digits places padded whole fraction
    have all : ∀ c ∈ padded, c ∈ cellCharacters :=
      List.forall_mem_append.mpr ⟨zeros _, digits_of_toDigits⟩
    have some : whole ≠ [] := by
      have length : padded.length = places + 1 - digits.length + digits.length := by
        simp [padded]
      rw [← List.length_pos_iff, List.length_take]
      omega
    have inWhole : ∀ c ∈ whole, c ∈ cellCharacters := by
      intro c member
      exact all c (List.mem_of_mem_take member)
    have inFraction : ∀ c ∈ fraction, c ∈ cellCharacters := by
      intro c member
      have kept := (List.dropWhile_sublist _).mem (List.mem_reverse.mp member)
      exact all c (List.mem_of_mem_drop (List.mem_reverse.mp kept))
    have cell : IsCell whole := ⟨some, inWhole⟩
    have pointed : ∀ c ∈ '.' :: fraction, c ∈ cellCharacters :=
      List.forall_mem_cons.mpr ⟨by decide, inFraction⟩
    clear_value whole fraction
    split
    · exact cell
    · exact cell.append pointed

theorem isCell_write (x : Float) : IsCell (write x) := by
  have signed : ∀ (negative : Bool) (rest : List Char), IsCell rest →
      IsCell ((if negative then ['-'] else []) ++ rest) := by
    intro negative rest cell
    cases negative with
    | false => exact cell
    | true =>
      have sign : IsCell ['-'] := .of_all (by decide) (by decide)
      exact sign.append cell.characters
  unfold write
  split
  · exact .of_all (by decide) (by decide)
  · extract_lets sign b
    split
    · exact signed _ _ (.of_all (by decide) (by decide))
    · split
      · exact signed _ _ (.of_all (by decide) (by decide))
      · exact signed _ _ b.shortest.isCell_layout

end Decimal

namespace Colour

def hexadecimal : List Char :=
  "0123456789abcdef".toList

theorem digitChar_mem {d : Nat} (small : d < 16) : Nat.digitChar d ∈ hexadecimal := by
  have all : ∀ e ∈ List.range 16, Nat.digitChar e ∈ hexadecimal := by decide
  exact all d (List.mem_range.mpr small)

theorem digitValue?_digitChar {d : Nat} (small : d < 16) :
    Text.Numeral.digitValue? 16 (Nat.digitChar d) = some d := by
  have all : ∀ e ∈ List.range 16, Text.Numeral.digitValue? 16 (Nat.digitChar e) = some e := by decide
  exact all d (List.mem_range.mpr small)

theorem readChannel_writeChannel (channel : UInt8) :
    readChannel (writeChannel Nat.digitChar channel) = some channel := by
  have small : channel.toNat < 256 := channel.toNat_lt
  have high : channel.toNat / 16 < 16 := by omega
  have low : channel.toNat % 16 < 16 := by omega
  have noSign : Nat.digitChar (channel.toNat / 16) ≠ '+' := by
    intro sign
    have digit := digitChar_mem high
    rw [sign] at digit
    exact absurd digit (by decide)
  have first : 0 * 16 + channel.toNat / 16 ≤ 255 := by omega
  have most : channel.toNat ≤ 255 := by omega
  have value : (0 * 16 + channel.toNat / 16) * 16 + channel.toNat % 16 = channel.toNat := by omega
  unfold readChannel writeChannel
  rw [Text.Numeral.read_of_unsigned _ noSign]
  simp only [Text.Numeral.readDigits, digitValue?_digitChar high, digitValue?_digitChar low,
    if_pos first, value, if_pos most]
  exact congrArg some UInt8.ofNat_toNat

theorem write_eq (colour : Colour) : ∃ digits, colour.write = '#' :: digits ∧ digits.length = 6 ∧
    ∀ d ∈ digits, d ∈ hexadecimal := by
  have pair : ∀ channel : UInt8, ∀ d ∈ writeChannel Nat.digitChar channel, d ∈ hexadecimal := by
    intro channel
    have most : channel.toNat < 256 := channel.toNat_lt
    exact List.forall_mem_cons.mpr ⟨digitChar_mem (by omega),
      List.forall_mem_singleton.mpr (digitChar_mem (by omega))⟩
  refine ⟨_, rfl, rfl, ?_⟩
  rw [List.forall_mem_append, List.forall_mem_append]
  exact ⟨⟨pair _, pair _⟩, pair _⟩

theorem isCell_write (colour : Colour) : IsCell colour.write := by
  have among : ∀ d ∈ hexadecimal, d ∈ cellCharacters := List.all_iff_forall_prop.mp (by decide)
  obtain ⟨digits, shape, _, all⟩ := colour.write_eq
  rw [shape]
  refine ⟨List.cons_ne_nil _ _, List.forall_mem_cons.mpr ⟨by decide, ?_⟩⟩
  intro d member
  exact among d (all d member)

theorem read_write (colour : Colour) : read colour.write = some colour := by
  have trimmed := colour.isCell_write.plain.trimmed.trim
  have red := readChannel_writeChannel colour.red
  have green := readChannel_writeChannel colour.green
  have blue := readChannel_writeChannel colour.blue
  unfold writeChannel at red green blue
  unfold read
  rw [trimmed]
  simp only [write, writeWith, writeChannel, List.cons_append, List.nil_append, red, green, blue]
  rfl

/-- The field is `#` and six small hexadecimal digits, and it is read as this colour. -/
structure SpelledBy (colour : Colour) (field : List Char) : Prop where
  shape : ∃ digits, field = '#' :: digits ∧ digits.length = 6 ∧ ∀ d ∈ digits, d ∈ hexadecimal
  reads : read field = some colour

theorem spelledBy_write (colour : Colour) : colour.SpelledBy colour.write :=
  ⟨colour.write_eq, colour.read_write⟩

end Colour
end FieldPlot
