import FieldPlot.Drawing
import FieldPlot.Proofs.Cells

/-!
Colours as texts. A colour is spelled as `#` and three pairs of hexadecimal digits of either case, and
what spells a colour is read as it. A channel is read as numbers are, though, so a plus sign in front of
one digit is taken for a pair as well (`Loose`). Among the texts without a plus sign none but the
spellings of a colour are read, and paths whose colour cannot be read have the standard one.
-/
namespace FieldPlot
namespace Colour

def Digit (c : Char) (value : Nat) : Prop :=
  hexadecimal[value]? = some c ∨ (hexadecimal.map Char.toUpper)[value]? = some c

instance (c : Char) (value : Nat) : Decidable (Digit c value) :=
  inferInstanceAs (Decidable (_ ∨ _))

def Paired (a b : Char) (number : Nat) : Prop :=
  ∃ high low, Digit a high ∧ Digit b low ∧ number = 16 * high + low

/-- What is taken for two digits: these, or a plus sign and one digit. -/
def Loose (a b : Char) (number : Nat) : Prop :=
  Paired a b number ∨ a = '+' ∧ Digit b number

inductive Spelled (pair : Char → Char → Nat → Prop) (colour : Colour) : List Char → Prop where
  | mk {a b c d e f : Char} (red : pair a b colour.red.toNat) (green : pair c d colour.green.toNat)
      (blue : pair e f colour.blue.toNat) : Spelled pair colour ['#', a, b, c, d, e, f]

variable {a b c : Char} {value number : Nat} {channel : UInt8} {colour : Colour} {s : List Char}

theorem Digit.lt (digit : Digit c value) : value < 16 := by
  rcases digit with small | capital
  · exact (List.getElem?_eq_some_iff.mp small).1
  · exact (List.getElem?_eq_some_iff.mp capital).1

theorem toNat_lt_of_digitValue? {base : Nat}
    (found : Text.Numeral.digitValue? base c = some value) : c.toNat < 128 := by
  have below {top : Char} (le : c ≤ top) (ascii : top.toNat < 128) : c.toNat < 128 :=
    lt_of_le_of_lt le ascii
  obtain ⟨read, _⟩ := Option.filter_eq_some_iff.mp found
  split at read
  · rename_i between
    exact below between.2 (by decide)
  · split at read
    · rename_i between
      exact below between.2 (by decide)
    · split at read
      · rename_i between
        exact below between.2 (by decide)
      · contradiction

theorem digitValue?_eq_some_iff : Text.Numeral.digitValue? 16 c = some value ↔ Digit c value := by
  constructor
  · intro found
    have all : ∀ n ∈ List.range 128, ∀ v ∈ Text.Numeral.digitValue? 16 (Char.ofNat n),
        Digit (Char.ofNat n) v := by decide +kernel
    have here := all c.toNat (List.mem_range.mpr (toNat_lt_of_digitValue? found))
    rw [Char.ofNat_toNat] at here
    exact here value found
  · intro digit
    have small : ∀ n ∈ List.range 16,
        hexadecimal[n]?.bind (Text.Numeral.digitValue? 16) = some n := by decide
    have capital : ∀ n ∈ List.range 16,
        (hexadecimal.map Char.toUpper)[n]?.bind (Text.Numeral.digitValue? 16) = some n := by decide
    have here := List.mem_range.mpr digit.lt
    rcases digit with found | found
    · simpa only [found, Option.bind_some] using small value here
    · simpa only [found, Option.bind_some] using capital value here

theorem not_digit_plus : ¬ Digit '+' value := by
  rw [← digitValue?_eq_some_iff]
  have none : Text.Numeral.digitValue? 16 '+' = none := by decide
  simp [none]

theorem readDigits_cons_eq_ok_iff {base bound before m : Nat} :
    Text.Numeral.readDigits base bound before (c :: s) = .ok m ↔
      ∃ d, Text.Numeral.digitValue? base c = some d ∧ before * base + d ≤ bound ∧
        Text.Numeral.readDigits base bound (before * base + d) s = .ok m := by
  rw [Text.Numeral.readDigits]
  cases Text.Numeral.digitValue? base c with
  | none => simp
  | some d =>
    by_cases fits : before * base + d ≤ bound
    · simp [fits]
    · simp [fits]

theorem readDigits_nil_eq_ok_iff {base bound before m : Nat} :
    Text.Numeral.readDigits base bound before [] = .ok m ↔ before = m :=
  ⟨Except.ok.inj, congrArg _⟩

theorem readDigits_pair_eq_ok_iff :
    Text.Numeral.readDigits 16 255 0 [a, b] = .ok number ↔ Paired a b number := by
  simp only [readDigits_cons_eq_ok_iff, readDigits_nil_eq_ok_iff, digitValue?_eq_some_iff]
  constructor
  · rintro ⟨high, first, _, low, second, _, rfl⟩
    exact ⟨high, low, first, second, by omega⟩
  · rintro ⟨high, low, first, second, rfl⟩
    have := first.lt
    have := second.lt
    exact ⟨high, first, by omega, low, second, by omega, by omega⟩

theorem readDigits_one_eq_ok_iff :
    Text.Numeral.readDigits 16 255 0 [b] = .ok number ↔ Digit b number := by
  simp only [readDigits_cons_eq_ok_iff, readDigits_nil_eq_ok_iff, digitValue?_eq_some_iff]
  constructor
  · rintro ⟨low, digit, _, rfl⟩
    rwa [zero_mul, zero_add]
  · intro digit
    have := digit.lt
    exact ⟨number, digit, by omega, by omega⟩

theorem not_paired_plus : ¬ Paired '+' b number :=
  fun ⟨_, _, digit, _⟩ => not_digit_plus digit

theorem read_pair_eq_ok_iff :
    Text.Numeral.read 16 255 [a, b] = .ok number ↔ Loose a b number := by
  by_cases sign : a = '+'
  · subst sign
    rw [Text.Numeral.read_of_signed (List.cons_ne_nil b []), readDigits_one_eq_ok_iff]
    simp [Loose, not_paired_plus]
  · rw [Text.Numeral.read_of_unsigned [b] sign, readDigits_pair_eq_ok_iff]
    simp [Loose, sign]

theorem Loose.lt (loose : Loose a b number) : number < 256 := by
  rcases loose with ⟨high, low, first, second, rfl⟩ | ⟨-, digit⟩
  · have := first.lt
    have := second.lt
    omega
  · exact digit.lt.trans (by decide)

theorem readChannel_eq_some_iff : readChannel [a, b] = some channel ↔ Loose a b channel.toNat := by
  rw [← read_pair_eq_ok_iff, readChannel]
  constructor
  · intro made
    cases done : Text.Numeral.read 16 255 [a, b] with
    | error fault => simp [done, Except.toOption] at made
    | ok number =>
      have inside := (read_pair_eq_ok_iff.mp done).lt
      have same : UInt8.ofNat number = channel := by simpa [done, Except.toOption] using made
      rw [← same, UInt8.toNat_ofNat_of_lt' inside]
  · intro done
    simp [done, Except.toOption]

theorem read_eq_some_iff : read s = some colour ↔ Spelled Loose colour (Text.trim s) := by
  unfold read
  split
  · rename_i a b c d e f shape
    rw [shape]
    constructor
    · intro made
      obtain ⟨red, first, made⟩ := Option.bind_eq_some_iff.mp made
      obtain ⟨green, second, made⟩ := Option.bind_eq_some_iff.mp made
      obtain ⟨blue, third, made⟩ := Option.bind_eq_some_iff.mp made
      obtain rfl := Option.some.inj made
      exact ⟨readChannel_eq_some_iff.mp first, readChannel_eq_some_iff.mp second,
        readChannel_eq_some_iff.mp third⟩
    · rintro ⟨red, green, blue⟩
      rw [readChannel_eq_some_iff.mpr red, readChannel_eq_some_iff.mpr green,
        readChannel_eq_some_iff.mpr blue]
      rfl
  · rename_i other
    constructor
    · intro made
      contradiction
    · intro spelled
      generalize Text.trim s = t at other spelled
      cases spelled with
      | mk _ _ _ => exact absurd rfl (other _ _ _ _ _ _)

theorem Spelled.loosen (spelled : Spelled Paired colour s) : Spelled Loose colour s := by
  obtain ⟨red, green, blue⟩ := spelled
  exact ⟨.inl red, .inl green, .inl blue⟩

theorem Loose.paired (loose : Loose a b number) (unsigned : a ≠ '+') : Paired a b number :=
  loose.resolve_right fun signed => unsigned signed.1

theorem Paired.unsigned (paired : Paired a b number) : a ≠ '+' ∧ b ≠ '+' := by
  obtain ⟨high, low, first, second, -⟩ := paired
  constructor
  · rintro rfl
    exact not_digit_plus first
  · rintro rfl
    exact not_digit_plus second

/-- A plus sign is all that keeps a text that is read from spelling the colour. -/
theorem Spelled.paired_iff (spelled : Spelled Loose colour s) :
    Spelled Paired colour s ↔ '+' ∉ s := by
  constructor
  · rintro ⟨red, green, blue⟩
    have := red.unsigned
    have := green.unsigned
    have := blue.unsigned
    simp_all [eq_comm]
  · intro unsigned
    obtain ⟨red, green, blue⟩ := spelled
    refine ⟨red.paired ?_, green.paired ?_, blue.paired ?_⟩ <;>
    · rintro rfl
      simp at unsigned

end Colour

namespace Drawing

theorem dataPath_stroke {x y : Scale} {stroke : Colour} {values : List Float} {path : Path}
    (drawn : path ∈ dataPath x y stroke values) : path.stroke = stroke := by
  unfold dataPath at drawn
  extract_lets points at drawn
  split at drawn
  · contradiction
  · obtain rfl := Option.some.inj drawn
    rfl

end Drawing

namespace Figure

theorem strokes_of_paths (f : Figure) : ∃ line marker, f.drawing.paths = line ++ marker ∧
    (∀ path ∈ line, path.stroke = Drawing.colourOr f.appearance.colour) ∧
    (∀ path ∈ marker, path.stroke = Drawing.colourOr f.appearance.markerColour) := by
  have marked : ∀ {x y : Drawing.Scale} {place : Marker → Float},
      ∀ path ∈ (f.marker.map fun m => Drawing.markerPath x y f.markerColour (place m)).toList,
        path.stroke = Drawing.colourOr f.appearance.markerColour := by
    intro x y place path member
    obtain ⟨m, _, rfl⟩ := Option.map_eq_some_iff.mp (Option.mem_toList.mp member)
    rfl
  have cells : ∀ colours, ∃ line marker, (f.drawCells colours).paths = line ++ marker ∧
      (∀ path ∈ line, path.stroke = Drawing.colourOr f.appearance.colour) ∧
      (∀ path ∈ marker, path.stroke = Drawing.colourOr f.appearance.markerColour) := by
    intro colours
    exact ⟨[], _, rfl, by simp, marked⟩
  unfold drawing
  split
  · refine ⟨_, _, rfl, ?_, marked⟩
    intro path member
    exact Drawing.dataPath_stroke (Option.mem_toList.mp member)
  · exact cells _
  · exact cells _
  · exact cells _

end Figure
namespace Colour

/-- What spells a colour between blanks is read as it. The other texts that are read have a plus sign
    in front of a digit, so among texts without this sign there are none. A path whose colour is not
    read has the standard one. -/
theorem colours_are_read (s : List Char) :
    (∀ colour, read s = some colour ↔ Spelled Loose colour (Text.trim s)) ∧
    (∀ colour, Spelled Paired colour (Text.trim s) → read s = some colour) ∧
    (∀ colour, read s = some colour → (Spelled Paired colour (Text.trim s) ↔ '+' ∉ Text.trim s)) ∧
    ('+' ∉ Text.trim s → (∀ colour, ¬ Spelled Paired colour (Text.trim s)) → read s = none) ∧
    (∀ f : Figure, ∃ line marker, f.drawing.paths = line ++ marker ∧
      (∀ path ∈ line, path.stroke = (read f.appearance.colour.toList).getD standard) ∧
      (∀ path ∈ marker, path.stroke = (read f.appearance.markerColour.toList).getD standard)) := by
  refine ⟨fun _ => read_eq_some_iff, ?_, ?_, ?_, Figure.strokes_of_paths⟩
  · intro colour spelled
    exact read_eq_some_iff.mpr spelled.loosen
  · intro colour made
    exact (read_eq_some_iff.mp made).paired_iff
  · intro unsigned unspelled
    rw [Option.eq_none_iff_forall_ne_some]
    intro colour made
    exact unspelled colour ((read_eq_some_iff.mp made).paired_iff.mpr unsigned)

theorem standard_is_read :
    Spelled Paired standard (Text.trim " #Ff9600\t".toList) ∧
    read " #Ff9600\t".toList = some standard ∧
    '+' ∉ Text.trim "#12345".toList ∧ read "#12345".toList = none := by
  have trimmed : Text.trim " #Ff9600\t".toList = ['#', 'F', 'f', '9', '6', '0', '0'] := by decide
  have spelled : Spelled Paired standard (Text.trim " #Ff9600\t".toList) := by
    rw [trimmed]
    exact ⟨⟨15, 15, by decide⟩, ⟨9, 6, by decide⟩, ⟨0, 0, by decide⟩⟩
  have short : ∀ colour, ¬ Spelled Paired colour (Text.trim "#12345".toList) := by
    have five : Text.trim "#12345".toList = ['#', '1', '2', '3', '4', '5'] := by decide
    rw [five]
    intro colour spelled
    cases spelled
  have unsigned : '+' ∉ Text.trim "#12345".toList := by decide
  obtain ⟨_, reads, _⟩ := colours_are_read " #Ff9600\t".toList
  obtain ⟨_, _, _, refuses, _⟩ := colours_are_read "#12345".toList
  exact ⟨spelled, reads standard spelled, unsigned, refuses unsigned short⟩

theorem plus_is_read : read "#+1+2+3".toList = some ⟨1, 2, 3⟩ ∧
    ∀ colour, ¬ Spelled Paired colour (Text.trim "#+1+2+3".toList) := by
  have trimmed : Text.trim "#+1+2+3".toList = ['#', '+', '1', '+', '2', '+', '3'] := by decide
  refine ⟨by decide, ?_⟩
  rw [trimmed]
  rintro colour ⟨red, -, -⟩
  exact not_paired_plus red

end Colour
end FieldPlot
