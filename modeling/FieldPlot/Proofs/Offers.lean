import FieldPlot.Proofs.Numerals
import FieldPlot.Proofs.Paths
import FieldPlot.Proofs.Projectable
import FieldPlot.Selection.Menu

/-!
What is offered. Selections are offered as texts, and a text is read as the selection that it was
written for, or not at all. Beside showing the data as recorded, the offer consists of just those
selections that one of the texts is read as and that name no axis but those of the data.
-/
namespace FieldPlot

namespace Text

theorem trim_cons_blank {c : Char} (blank : isBlank c = true) (s : List Char) :
    trim (c :: s) = trim s := by
  rw [trim, trim, stripBoth, stripBoth, List.dropWhile_cons_of_pos blank]

theorem trimmed_of_solid {s : List Char} (solid : ∀ c ∈ s, isBlank c = false) : Trimmed s where
  first := fun c first => solid c (List.mem_of_head? first)
  last := fun c last => solid c (List.mem_of_getLast? last)

end Text

namespace Axis

variable (a : Axis)

theorem solid_of_mem_label {a : Axis} {c : Char} (member : c ∈ a.label) :
    c ≠ ',' ∧ Text.isBlank c = false := by
  rcases List.mem_cons.mp member with rfl | member
  · decide
  · rcases List.mem_cons.mp member with rfl | member
    · decide
    · have digit : c.isDigit = true := Text.Numeral.isDigit_of_mem_write member
      refine ⟨?_, (Decimal.Literal.IsPart.of_isDigit digit).not_isBlank⟩
      rintro rfl
      contradiction

theorem trim_label : Text.trim a.label = a.label :=
  (Text.trimmed_of_solid fun _ member => (solid_of_mem_label member).2).trim

theorem cutAt_label : Text.cutAt ',' a.label = [a.label] :=
  Text.cutAt_of_not_mem fun member => (solid_of_mem_label member).1 rfl

theorem read_label : read a.label =
    if a.number ≤ Word.limit then .ok a else .error (.badAxisLabel a.text) := by
  rw [read, trim_label, label, ofLabel?]
  by_cases inside : a.number ≤ Word.limit
  · rw [Text.Numeral.read_write inside, if_pos inside]
    rfl
  · rw [Text.Numeral.read_write_of_gt (Nat.lt_of_not_le inside), if_neg inside]
    rfl

theorem eq_of_read_label {a b : Axis} (done : read a.label = .ok b) : b = a := by
  rw [read_label] at done
  split at done
  · exact (Except.ok.inj done).symm
  · contradiction

end Axis

namespace Selection

theorem lower_label_ne (a : Axis) (rest : List Char) :
    ¬ (a.label ++ rest = [] ∨ Text.lower (a.label ++ rest) = unprojected.write) := by
  rintro (none | keyword)
  · exact absurd none (List.append_ne_nil_of_left_ne_nil (List.cons_ne_nil _ _) rest)
  · exact absurd (List.cons.inj keyword).1 (by decide)

theorem read_single (a : Axis) : read (single a).write = (Axis.read a.label).map single := by
  have written : (single a).write = a.label := rfl
  have named := lower_label_ne a []
  rw [List.append_nil] at named
  rw [read, written, a.trim_label]
  simp only [named, if_false, a.cutAt_label]
  cases Axis.read a.label with
  | error cause => rfl
  | ok b => rfl

theorem trimmed_pair (a b : Axis) : Text.Trimmed (pair a b).write where
  first := by
    rintro c ⟨⟩
    decide
  last := by
    intro c last
    have label : b.label ≠ [] := List.cons_ne_nil _ _
    rw [write, List.getLast?_append_of_ne_nil _ (List.cons_ne_nil _ _), List.getLast?_cons_cons,
      List.getLast?_cons_of_ne_nil label] at last
    exact (Axis.solid_of_mem_label (List.mem_of_getLast? last)).2

theorem read_pair (a b : Axis) : read (pair a b).write =
    Axis.read a.label >>= fun first => (Axis.read b.label).map (pair first) := by
  have second : Axis.read (' ' :: b.label) = Axis.read b.label := by
    rw [Axis.read, Axis.read, Text.trim_cons_blank (by decide)]
  have parts : Text.cutAt ',' (a.label ++ ',' :: ' ' :: b.label) = [a.label, ' ' :: b.label] := by
    have absent : ',' ∉ ' ' :: b.label :=
      List.not_mem_cons_of_ne_of_not_mem (by decide)
        fun member => (Axis.solid_of_mem_label member).1 rfl
    rw [Text.cutAt_append_separator, a.cutAt_label, Text.cutAt_of_not_mem absent]
    rfl
  have written : (pair a b).write = a.label ++ ',' :: ' ' :: b.label := rfl
  rw [read, (trimmed_pair a b).trim, written]
  simp only [lower_label_ne a, if_false, parts, second]
  cases Axis.read a.label with
  | error cause => rfl
  | ok first =>
    cases Axis.read b.label with
    | error cause => rfl
    | ok second => rfl

theorem eq_of_read_write {s t : Selection} (done : read s.write = .ok t) : t = s := by
  cases s with
  | unprojected => exact (Except.ok.inj done).symm
  | single a =>
    rw [read_single] at done
    obtain ⟨own, found, rfl⟩ := map_eq_ok done
    rw [Axis.eq_of_read_label found]
  | pair a b =>
    rw [read_pair] at done
    obtain ⟨first, found, done⟩ := bind_eq_ok done
    obtain ⟨second, found', rfl⟩ := map_eq_ok done
    rw [Axis.eq_of_read_label found, Axis.eq_of_read_label found']

theorem read_write {selection : Selection} (counts : ∀ a ∈ selection.axes, a.number ≤ Word.limit) :
    read selection.write = .ok selection := by
  cases selection with
  | unprojected => rfl
  | single a =>
    have first : a.number ≤ Word.limit := counts a List.mem_cons_self
    rw [read_single, Axis.read_label, if_pos first]
    rfl
  | pair a b =>
    obtain ⟨first, second⟩ := List.forall_mem_cons.mp counts
    rw [read_pair, Axis.read_label, Axis.read_label, if_pos first,
      if_pos (List.forall_mem_singleton.mp second)]
    rfl

theorem mem_insertNew {chosen : List Selection} {s t : Selection} :
    t ∈ insertNew chosen s ↔ t ∈ chosen ∨ t = s := by
  unfold insertNew
  split
  · rename_i old
    exact ⟨.inl, fun either => either.elim id fun same => same ▸ old⟩
  · rw [List.mem_append, List.mem_singleton]

theorem mem_foldl_insertNew {added chosen : List Selection} {s : Selection} :
    s ∈ added.foldl insertNew chosen ↔ s ∈ chosen ∨ s ∈ added := by
  induction added generalizing chosen with
  | nil => simp
  | cons t added ih => rw [List.foldl_cons, ih, mem_insertNew, List.mem_cons, or_assoc]

def Within (rank : Nat) (s : Selection) : Prop :=
  ∀ a ∈ s.axes, a.index < rank

theorem within_single {rank : Nat} {a : Axis} : Within rank (single a) ↔ a.number ≤ rank :=
  List.forall_mem_singleton

theorem within_pair {rank : Nat} {a b : Axis} :
    Within rank (pair a b) ↔ a.number ≤ rank ∧ b.number ≤ rank :=
  List.forall_mem_cons.trans (and_congr_right' List.forall_mem_singleton)

theorem exists_names_iff {rank : Nat} {s : Selection} :
    (∃ number ∈ List.range (rank + 1), Names rank number s) ↔ s ≠ unprojected ∧ s.Within rank := by
  cases s with
  | unprojected => simp [Names]
  | single a =>
    simp [Names, Within, axes, Axis.number]
  | pair a b =>
    simp only [Names, Within, axes, Axis.number, List.mem_range, List.forall_mem_cons]
    constructor
    · rintro ⟨number, _, _, first, second⟩
      simp
      omega
    · rintro ⟨_, first, second, _⟩
      exact ⟨a.index + 1, by omega, .inl rfl, first, second⟩

def takeNumber (rank : Nat) (parsed chosen : List Selection) (number : Nat) : List Selection :=
  (parsed.filter fun s => Names rank number s).foldl insertNew chosen

theorem collect_eq (rank : Nat) (parsed : List Selection) :
    collect rank parsed = (List.range (rank + 1)).foldl (takeNumber rank parsed) [unprojected] := rfl

theorem mem_takeNumbers {rank : Nat} {parsed chosen : List Selection} {numbers : List Nat}
    {s : Selection} : s ∈ numbers.foldl (takeNumber rank parsed) chosen ↔
      s ∈ chosen ∨ s ∈ parsed ∧ ∃ number ∈ numbers, Names rank number s := by
  induction numbers generalizing chosen with
  | nil => simp
  | cons number numbers ih =>
    rw [List.foldl_cons, ih, takeNumber, mem_foldl_insertNew, List.mem_filter, decide_eq_true_eq]
    simp only [List.exists_mem_cons_iff]
    tauto

/-- Collecting by number, each selection is taken at the number of one of its axes. -/
theorem mem_collect {rank : Nat} {parsed : List Selection} {s : Selection} :
    s ∈ collect rank parsed ↔ s = unprojected ∨ s ≠ unprojected ∧ s.Within rank ∧ s ∈ parsed := by
  rw [collect_eq, mem_takeNumbers, exists_names_iff, List.mem_singleton]
  tauto

theorem mem_arrange {selections : List Selection} {s : Selection} :
    s ∈ arrange selections ↔ s ∈ selections := by
  have count : s.axisCount = 0 ∨ s.axisCount = 1 ∨ s.axisCount = 2 := by
    cases s with
    | unprojected => exact .inl rfl
    | single a => exact .inr (.inl rfl)
    | pair a b => exact .inr (.inr rfl)
  simp only [arrange, List.mem_append, List.mem_filter, decide_eq_true_eq]
  tauto

def parsed (texts : List String) : List Selection :=
  texts.filterMap fun t => (read t.toList).toOption

theorem mem_parsed {texts : List String} {s : Selection} :
    s ∈ parsed texts ↔ ∃ t ∈ texts, read t.toList = .ok s := by
  rw [parsed, List.mem_filterMap]
  refine exists_congr fun t => and_congr_right fun _ => ?_
  cases read t.toList with
  | error cause => simp [Except.toOption]
  | ok s' => simp [Except.toOption]

theorem offered_eq (rank : Nat) (texts : List String) :
    offered rank texts = arrange (collect rank (parsed texts)) := rfl

theorem mem_offered {rank : Nat} {texts : List String} {s : Selection} :
    s ∈ offered rank texts ↔ s = unprojected ∨
      s ≠ unprojected ∧ s.Within rank ∧ ∃ t ∈ texts, read t.toList = .ok s := by
  rw [offered_eq, mem_arrange, mem_collect, mem_parsed]

theorem mem_candidates {rank : Nat} {s : Selection} :
    s ∈ candidates rank ↔ (∃ a, s = single a ∧ a.index < rank) ∨
      ∃ a b, s = pair a b ∧ a.index < b.index ∧ b.index < rank := by
  rw [candidates, List.mem_append]
  refine or_congr ?_ ?_
  · simp only [List.mem_map, List.mem_range]
    exact ⟨fun ⟨i, bound, same⟩ => ⟨⟨i⟩, same.symm, bound⟩,
      fun ⟨a, same, bound⟩ => ⟨a.index, bound, same.symm⟩⟩
  · simp only [List.mem_flatMap, List.mem_map, List.mem_range]
    constructor
    · rintro ⟨i, _, k, more, rfl⟩
      exact ⟨⟨i⟩, ⟨i + 1 + k⟩, rfl, by simp only; omega, by simp only; omega⟩
    · rintro ⟨⟨i⟩, ⟨j⟩, rfl, later, bound⟩
      simp only at later bound
      refine ⟨i, by omega, j - (i + 1), by omega, ?_⟩
      rw [Nat.add_sub_cancel' (by omega)]

theorem mem_candidates_of_offered {rank most : Nat} {s : Selection}
    (offer : s ∈ offered rank ((candidates most).map text)) :
    s = unprojected ∨ s.Within rank ∧ s ∈ candidates most := by
  rcases mem_offered.mp offer with recorded | ⟨_, within, t, listed, done⟩
  · exact .inl recorded
  · obtain ⟨s', candidate, rfl⟩ := List.mem_map.mp listed
    rw [text, String.toList_ofList] at done
    obtain rfl := eq_of_read_write done
    exact .inr ⟨within, candidate⟩

end Selection
end FieldPlot
