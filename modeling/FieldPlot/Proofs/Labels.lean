import FieldPlot.Proofs.Offers
import Mathlib.Data.List.DropRight

/-!
How selections are spelled. A label is `x_` with the digits of its number, perhaps behind a plus sign
and perhaps between blanks (`Axis.Labelled`); a blank text or `none` keeps nothing, one label keeps an
axis, and two labels with a comma between them keep two (`Selection.Spelled`). These texts are read as
what they spell, and every other text is refused: for its number of parts, or for its first part that is
no label.
-/
namespace FieldPlot

namespace Text

theorem trimmed_trim (s : List Char) : Trimmed (trim s) where
  first := by
    intro c first
    -- What is left of a text without blanks in front is a start of this text.
    have starts : trim s <+: s.dropWhile isBlank := List.rdropWhile_prefix isBlank _
    obtain ⟨rest, same⟩ := starts
    have there : (s.dropWhile isBlank).head? = some c := by
      rw [← same, List.head?_append, first]
      rfl
    have solid := List.head?_dropWhile_not isBlank s
    rwa [there] at solid
  last := by
    intro c last
    have there : ((s.dropWhile isBlank).reverse.dropWhile isBlank).head? = some c := by
      rw [← List.getLast?_reverse]
      exact last
    have solid := List.head?_dropWhile_not isBlank (s.dropWhile isBlank).reverse
    rwa [there] at solid

theorem trim_trim (s : List Char) : trim (trim s) = trim s :=
  (trimmed_trim s).trim

theorem toLower_cases (c : Char) : c.toLower = c ∨ c.toLower.toUpper = c := by
  by_cases capital : c.val ≥ 'A'.val ∧ c.val ≤ 'Z'.val
  · right
    have low : 65 ≤ c.toNat := capital.1
    have high : c.toNat ≤ 90 := capital.2
    rw [← Char.ofNat_toNat c]
    generalize c.toNat = n at low high
    interval_cases n <;> decide
  · exact Or.inl (dif_neg capital)

theorem toUpper_cases (c : Char) : c.toUpper = c ∨ c.toUpper.toLower = c := by
  by_cases small : 'a'.val ≤ c.val ∧ c.val ≤ 'z'.val
  · right
    have low : 97 ≤ c.toNat := small.1
    have high : c.toNat ≤ 122 := small.2
    rw [← Char.ofNat_toNat c]
    generalize c.toNat = n at low high
    interval_cases n <;> decide
  · exact Or.inl (dif_neg small)

theorem toLower_eq_iff {c letter : Char} (small : letter.toLower = letter) :
    c.toLower = letter ↔ c = letter ∨ c = letter.toUpper := by
  constructor
  · rintro rfl
    exact (toLower_cases c).imp Eq.symm Eq.symm
  · rintro (rfl | rfl)
    · exact small
    · rcases toUpper_cases letter with same | back
      · rw [same, small]
      · exact back

def InAnyCase (word s : List Char) : Prop :=
  List.Forall₂ (fun c letter => c = letter ∨ c = letter.toUpper) s word

theorem lower_eq_iff {word s : List Char} (small : lower word = word) :
    lower s = word ↔ InAnyCase word s := by
  induction word generalizing s with
  | nil => rw [lower, List.map_eq_nil_iff, InAnyCase, List.forall₂_nil_right_iff]
  | cons letter word ih =>
    obtain ⟨first, others⟩ := List.cons.inj small
    cases s with
    | nil => simp [lower, InAnyCase]
    | cons c s =>
      rw [lower, List.map_cons, List.cons.injEq, InAnyCase, List.forall₂_cons, toLower_eq_iff first]
      exact and_congr_right' (ih others)

theorem mem_dropWhile {α : Type} {drop : α → Bool} {x : α} {s : List α} (kept : drop x = false)
    (member : x ∈ s) : x ∈ s.dropWhile drop := by
  rw [← List.takeWhile_append_dropWhile (p := drop) (l := s), List.mem_append] at member
  rcases member with dropped | left
  · have all := List.all_eq_true.mp (List.all_takeWhile (p := drop) (l := s)) x dropped
    rw [kept] at all
    contradiction
  · exact left

theorem mem_trim {c : Char} {s : List Char} (solid : isBlank c = false) (member : c ∈ s) :
    c ∈ trim s := by
  rw [trim, stripBoth, List.mem_reverse]
  exact mem_dropWhile solid (List.mem_reverse.mpr (mem_dropWhile solid member))

end Text

theorem Text.Numeral.Spelled.characters {n : Nat} {s : List Char} (spelled : Spelled n s) :
    ∀ c ∈ s, c = '+' ∨ c.isDigit = true := by
  cases spelled with
  | unsigned digits => exact fun c member => Or.inr (digits.digits c member)
  | signed digits =>
    exact List.forall_mem_cons.mpr ⟨Or.inl rfl, fun c member => Or.inr (digits.digits c member)⟩

namespace Axis

def Labelled (a : Axis) (s : List Char) : Prop :=
  ∃ digits, Text.trim s = 'x' :: '_' :: digits ∧ Text.Numeral.Spelled a.number digits ∧
    a.number ≤ Word.limit

theorem ofLabel?_eq_some_iff {a : Axis} {s : List Char} :
    ofLabel? s = some a ↔
      ∃ digits, s = 'x' :: '_' :: digits ∧ Text.Numeral.read 10 Word.limit digits = .ok a.number := by
  constructor
  · intro found
    unfold ofLabel? at found
    split at found
    · rename_i digits
      split at found
      · rename_i n done
        obtain rfl := Option.some.inj found
        exact ⟨digits, rfl, done⟩
      · contradiction
    · contradiction
  · rintro ⟨digits, rfl, done⟩
    unfold ofLabel?
    simp only [done]
    rfl

theorem read_eq_ok_iff {a : Axis} {s : List Char} : read s = .ok a ↔ a.Labelled s := by
  have named : read s = .ok a ↔ ofLabel? (Text.trim s) = some a := by
    unfold read
    cases ofLabel? (Text.trim s) with
    | none => simp
    | some b => simp
  rw [named, ofLabel?_eq_some_iff, Labelled]
  simp only [Text.Numeral.read_eq_ok_iff]

theorem read_of_unlabelled {s : List Char} (unlabelled : ∀ a : Axis, ¬ a.Labelled s) :
    read s = .error (.badAxisLabel (String.ofList (Text.trim s))) := by
  cases done : ofLabel? (Text.trim s) with
  | none => rw [read, done]
  | some a =>
    have accepted : read s = .ok a := by rw [read, done]
    exact absurd (read_eq_ok_iff.mp accepted) (unlabelled a)

theorem labelled_trim {a : Axis} {s : List Char} : a.Labelled (Text.trim s) ↔ a.Labelled s := by
  rw [Labelled, Text.trim_trim, Labelled]

theorem Labelled.whole {a : Axis} {s : List Char} (label : a.Labelled s) : ',' ∉ s := by
  obtain ⟨digits, start, number, _⟩ := label
  intro member
  have inside := Text.mem_trim (by decide) member
  rw [start, List.mem_cons, List.mem_cons] at inside
  rcases inside with first | second | rest
  · contradiction
  · contradiction
  · rcases number.characters ',' rest with sign | digit
    · contradiction
    · contradiction

end Axis

namespace Selection

def NamesNothing (s : List Char) : Prop :=
  s = [] ∨ Text.InAnyCase unprojected.write s

theorem namesNothing_iff {s : List Char} :
    s = [] ∨ Text.lower s = unprojected.write ↔ NamesNothing s :=
  or_congr_right (Text.lower_eq_iff (by decide))

inductive Spelled : Selection → List Char → Prop where
  | unprojected {s : List Char} (nothing : NamesNothing (Text.trim s)) : Spelled .unprojected s
  | single {s : List Char} {a : Axis} (label : a.Labelled s) : Spelled (.single a) s
  | pair {s first second : List Char} {a b : Axis} (parts : Text.trim s = first ++ ',' :: second)
      (left : a.Labelled first) (right : b.Labelled second) : Spelled (.pair a b) s

theorem not_namesNothing_of_comma {s : List Char} (separated : ',' ∈ s) : ¬ NamesNothing s := by
  rw [← namesNothing_iff]
  rintro (blank | keyword)
  · rw [blank] at separated
    contradiction
  · have member : ','.toLower ∈ Text.lower s := List.mem_map_of_mem separated
    rw [keyword] at member
    exact absurd member (by decide)

theorem not_namesNothing_of_label {a : Axis} {s : List Char} (label : a.Labelled s) :
    ¬ NamesNothing (Text.trim s) := by
  obtain ⟨digits, start, _⟩ := label
  rw [← namesNothing_iff, start]
  rintro (blank | keyword)
  · contradiction
  · exact absurd (List.cons.inj keyword).1 (by decide)

section Reading

variable {s : List Char}

theorem read_of_nothing (nothing : NamesNothing (Text.trim s)) : read s = .ok unprojected := by
  rw [read]
  simp only [namesNothing_iff, nothing, if_true]
  rfl

variable (something : ¬ NamesNothing (Text.trim s))
include something

theorem read_of_one {part : List Char} (parts : Text.ConsistsOf ',' (Text.trim s) [part]) :
    read s = (Axis.read part).map single := by
  rw [read]
  simp only [namesNothing_iff, something, if_false, parts.cutAt_eq]
  cases Axis.read part with
  | error cause => rfl
  | ok a => rfl

theorem read_of_two {first second : List Char}
    (parts : Text.ConsistsOf ',' (Text.trim s) [first, second]) :
    read s = Axis.read first >>= fun a => (Axis.read second).map (pair a) := by
  rw [read]
  simp only [namesNothing_iff, something, if_false, parts.cutAt_eq]
  cases Axis.read first with
  | error cause => rfl
  | ok a =>
    cases Axis.read second with
    | error cause => rfl
    | ok b => rfl

theorem read_of_more {first second third : List Char} {more : List (List Char)}
    (parts : Text.ConsistsOf ',' (Text.trim s) (first :: second :: third :: more)) :
    read s = .error (.projection (.tooManyAxes (String.ofList (Text.trim s)))) := by
  rw [read]
  simp only [namesNothing_iff, something, if_false, parts.cutAt_eq]
  rfl

end Reading

section Spelling

variable {s : List Char} {selection : Selection}

theorem spelled_of_read (done : read s = .ok selection) : selection.Spelled s := by
  by_cases nothing : NamesNothing (Text.trim s)
  · obtain rfl := Except.ok.inj ((read_of_nothing nothing).symm.trans done)
    exact .unprojected nothing
  · have parts := Text.consistsOf_cutAt ',' (Text.trim s)
    match cut : Text.cutAt ',' (Text.trim s) with
    | [] => exact absurd cut parts.filled
    | [part] =>
      rw [cut] at parts
      rw [read_of_one nothing parts] at done
      obtain ⟨a, label, rfl⟩ := map_eq_ok done
      have same : part = Text.trim s := by simpa using parts.joined
      rw [same] at label
      exact .single (Axis.labelled_trim.mp (Axis.read_eq_ok_iff.mp label))
    | [first, second] =>
      rw [cut] at parts
      rw [read_of_two nothing parts] at done
      obtain ⟨a, left, done⟩ := bind_eq_ok done
      obtain ⟨b, right, rfl⟩ := map_eq_ok done
      have same : Text.trim s = first ++ ',' :: second := by simpa using parts.joined.symm
      exact .pair same (Axis.read_eq_ok_iff.mp left) (Axis.read_eq_ok_iff.mp right)
    | first :: second :: third :: more =>
      rw [cut] at parts
      rw [read_of_more nothing parts] at done
      contradiction

theorem read_of_spelled (spelled : selection.Spelled s) : read s = .ok selection := by
  cases spelled with
  | unprojected nothing => exact read_of_nothing nothing
  | single label =>
    have trimmed := Axis.labelled_trim.mpr label
    have parts : Text.ConsistsOf ',' (Text.trim s) [Text.trim s] :=
      ⟨List.intercalate_singleton, List.cons_ne_nil _ _, List.forall_mem_singleton.mpr trimmed.whole⟩
    rw [read_of_one (not_namesNothing_of_label label) parts, Axis.read_eq_ok_iff.mpr trimmed]
    rfl
  | @pair _ first second a b joined left right =>
    have parts : Text.ConsistsOf ',' (Text.trim s) [first, second] := by
      refine ⟨?_, List.cons_ne_nil _ _, ?_⟩
      · rw [joined]
        simp
      · exact List.forall_mem_cons.mpr ⟨left.whole, List.forall_mem_singleton.mpr right.whole⟩
    rw [read_of_two (not_namesNothing_of_comma parts.separator_mem) parts,
      Axis.read_eq_ok_iff.mpr left, Axis.read_eq_ok_iff.mpr right]
    rfl

structure FirstUnlabelled (parts : List (List Char)) (part : List Char) : Prop where
  split : ∃ before after, parts = before ++ part :: after ∧
    ∀ earlier ∈ before, ∃ a : Axis, a.Labelled earlier
  unlabelled : ∀ a : Axis, ¬ a.Labelled part

/-- A text of one or two parts that spells no selection is refused for its first part that is no
    label. -/
theorem read_of_unspelled {parts : List (List Char)} (few : parts.length < 3)
    (consists : Text.ConsistsOf ',' (Text.trim s) parts)
    (unspelled : ∀ selection : Selection, ¬ selection.Spelled s) :
    ∃ part, FirstUnlabelled parts part ∧
      read s = .error (.badAxisLabel (String.ofList (Text.trim part))) := by
  have something : ¬ NamesNothing (Text.trim s) := fun nothing => unspelled _ (.unprojected nothing)
  match parts with
  | [] => exact absurd rfl consists.filled
  | [part] =>
    have same : part = Text.trim s := by simpa using consists.joined
    have bad : ∀ a : Axis, ¬ a.Labelled part := by
      intro a label
      rw [same, Axis.labelled_trim] at label
      exact unspelled _ (.single label)
    refine ⟨part, ⟨⟨[], [], rfl, by simp⟩, bad⟩, ?_⟩
    rw [read_of_one something consists, Axis.read_of_unlabelled bad]
    rfl
  | [first, second] =>
    have joined : Text.trim s = first ++ ',' :: second := by simpa using consists.joined.symm
    by_cases left : ∃ a : Axis, a.Labelled first
    · obtain ⟨a, left⟩ := left
      have bad : ∀ b : Axis, ¬ b.Labelled second := fun b right => unspelled _ (.pair joined left right)
      refine ⟨second, ⟨⟨[first], [], rfl, List.forall_mem_singleton.mpr ⟨a, left⟩⟩, bad⟩, ?_⟩
      rw [read_of_two something consists, Axis.read_eq_ok_iff.mpr left, Axis.read_of_unlabelled bad]
      rfl
    · have bad : ∀ a : Axis, ¬ a.Labelled first := fun a label => left ⟨a, label⟩
      refine ⟨first, ⟨⟨[], [second], rfl, by simp⟩, bad⟩, ?_⟩
      rw [read_of_two something consists, Axis.read_of_unlabelled bad]
      rfl
  | _ :: _ :: _ :: more =>
    simp only [List.length_cons] at few
    omega

end Spelling

/-- Blank texts and `none`, a label, and two labels with a comma between them are the texts that are
    read as selections. A text of more parts is refused as a whole, any other for its first part that is
    no label. What is read from the text of a selection is this selection. -/
theorem selections_are_spelled :
    (∀ (s : List Char) (selection : Selection), read s = .ok selection ↔ selection.Spelled s) ∧
    (∀ s : List Char, ∃ parts, Text.ConsistsOf ',' (Text.trim s) parts ∧
      (3 ≤ parts.length →
        read s = .error (.projection (.tooManyAxes (String.ofList (Text.trim s))))) ∧
      (parts.length < 3 → (∀ selection : Selection, ¬ selection.Spelled s) →
        ∃ part, FirstUnlabelled parts part ∧
          read s = .error (.badAxisLabel (String.ofList (Text.trim part))))) ∧
    ∀ selection : Selection, (∀ a ∈ selection.axes, a.index < Word.limit) →
      read selection.write = .ok selection := by
  refine ⟨fun s selection => ⟨spelled_of_read, read_of_spelled⟩, fun s => ?_, fun selection => read_write⟩
  have consists := Text.consistsOf_cutAt ',' (Text.trim s)
  refine ⟨_, consists, fun many => ?_, fun few => read_of_unspelled few consists⟩
  generalize Text.cutAt ',' (Text.trim s) = parts at consists many
  match parts with
  | first :: second :: third :: more =>
    exact read_of_more (not_namesNothing_of_comma consists.separator_mem) consists

/-- Blanks, a sign and a leading zero; three labels; a keyword in the place of a label; and the axis of
    the largest number. -/
theorem spelled_with_sign_and_zero :
    read " x_+2 ,\u3000x_018".toList = .ok (pair ⟨1⟩ ⟨17⟩) ∧
    read " x_1,x_2,x_3".toList = .error (.projection (.tooManyAxes "x_1,x_2,x_3")) ∧
    (∃ part, FirstUnlabelled ["x_2".toList, " None".toList] part ∧
      read "x_2, None".toList = .error (.badAxisLabel (String.ofList (Text.trim part)))) ∧
    read (pair ⟨18446744073709551614⟩ ⟨0⟩).write = .ok (pair ⟨18446744073709551614⟩ ⟨0⟩) := by
  obtain ⟨spelling, refusals, written⟩ := selections_are_spelled
  refine ⟨?_, ?_, ?_, written _ (by decide)⟩
  · have second : Axis.Labelled ⟨1⟩ "x_+2 ".toList :=
      ⟨"+2".toList, by decide, .signed ⟨by decide, List.all_eq_true.mp rfl, by decide⟩, by decide⟩
    have eighteenth : Axis.Labelled ⟨17⟩ "\u3000x_018".toList :=
      ⟨"018".toList, by decide, .unsigned ⟨by decide, List.all_eq_true.mp rfl, by decide⟩, by decide⟩
    exact (spelling _ _).mpr (.pair (by decide) second eighteenth)
  · obtain ⟨parts, consists, many, _⟩ := refusals " x_1,x_2,x_3".toList
    obtain rfl := consists.cutAt_eq
    exact many (by decide)
  · obtain ⟨parts, consists, _, few⟩ := refusals "x_2, None".toList
    obtain rfl := consists.cutAt_eq
    refine few (by decide) fun selection spelled => ?_
    have done := (spelling _ _).mpr spelled
    have fails : (read "x_2, None".toList).isOk = false := by decide
    rw [done] at fails
    contradiction

end Selection
end FieldPlot
