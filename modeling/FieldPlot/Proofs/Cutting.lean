import FieldPlot.Text.Blank
import Mathlib.Data.List.Basic

/-!
Lists cut at separators. The parts of a cut are the only lists without the separator that give what was
cut when they are joined again (`ConsistsOf`).
-/
namespace FieldPlot.Text

theorem forall_mem_of_mem_splitOn {α : Type} [DecidableEq α] {separator : α} {xs part : List α}
    (member : part ∈ xs.splitOn separator) : ∀ x ∈ part, x ∈ xs ∧ x ≠ separator := by
  induction xs generalizing part with
  | nil =>
    obtain rfl := List.mem_singleton.mp member
    simp
  | cons y xs ih =>
    have further : ∀ part ∈ xs.splitOn separator, ∀ x ∈ part, x ∈ y :: xs ∧ x ≠ separator :=
      fun part there x inside => (ih there x inside).imp_left (List.mem_cons_of_mem y)
    rw [List.splitOn_cons_eq_if_modifyHead] at member
    split at member
    · rcases List.mem_cons.mp member with rfl | there
      · simp
      · exact further part there
    · rename_i other
      cases parts : xs.splitOn separator with
      | nil => exact absurd parts (List.splitOn_ne_nil separator xs)
      | cons first others =>
        rw [parts, List.forall_mem_cons] at further
        rw [parts, List.modifyHead_cons] at member
        rcases List.mem_cons.mp member with rfl | there
        · exact List.forall_mem_cons.mpr ⟨⟨List.mem_cons_self, by simpa using other⟩, further.1⟩
        · exact further.2 part there

theorem cutAt_eq_splitOn (separator : Char) (s : List Char) :
    cutAt separator s = s.splitOn separator := by
  induction s with
  | nil => rfl
  | cons c s ih =>
    rw [cutAt, List.splitOn_cons_eq_if_modifyHead, ← ih]
    simp only [beq_iff_eq]
    split
    · rfl
    · cases parts : cutAt separator s with
      | nil => exact absurd parts (cutAt_ne_nil separator s)
      | cons part parts => rfl

theorem cutAt_of_not_mem {c : Char} {s : List Char} (absent : c ∉ s) : cutAt c s = [s] :=
  (cutAt_eq_splitOn c s).trans (List.splitOn_eq_singleton absent)

theorem cutAt_append_separator (c : Char) (s t : List Char) :
    cutAt c (s ++ c :: t) = cutAt c s ++ cutAt c t := by
  rw [cutAt_eq_splitOn, cutAt_eq_splitOn, cutAt_eq_splitOn, List.splitOn_append_cons_self]

theorem append_separator_inj {c : Char} {s s' t t' : List Char} (whole : c ∉ t) (whole' : c ∉ t')
    (same : s ++ c :: t = s' ++ c :: t') : s = s' ∧ t = t' := by
  have parts := congrArg (cutAt c) same
  rw [cutAt_append_separator, cutAt_append_separator, cutAt_of_not_mem whole,
    cutAt_of_not_mem whole'] at parts
  obtain ⟨_, last⟩ := List.append_inj' parts rfl
  obtain rfl := List.singleton_inj.mp last
  exact ⟨List.append_cancel_right same, rfl⟩

theorem not_mem_of_mem_cutAt {c : Char} {s part : List Char} (member : part ∈ cutAt c s) :
    c ∉ part := by
  rw [cutAt_eq_splitOn] at member
  exact fun inside => (forall_mem_of_mem_splitOn member c inside).2 rfl

/-- The parts of a text: joined by separators they are the text, and none holds a separator. -/
structure ConsistsOf (separator : Char) (s : List Char) (parts : List (List Char)) : Prop where
  joined : [separator].intercalate parts = s
  filled : parts ≠ []
  whole : ∀ part ∈ parts, separator ∉ part

theorem ConsistsOf.cutAt_eq {separator : Char} {s : List Char} {parts : List (List Char)}
    (consists : ConsistsOf separator s parts) : cutAt separator s = parts := by
  rw [cutAt_eq_splitOn, ← consists.joined]
  exact List.splitOn_intercalate separator consists.whole consists.filled

theorem consistsOf_cutAt (separator : Char) (s : List Char) :
    ConsistsOf separator s (cutAt separator s) where
  joined := intercalate_cutAt separator s
  filled := cutAt_ne_nil separator s
  whole := fun _ => not_mem_of_mem_cutAt

theorem ConsistsOf.separator_mem {separator : Char} {s first second : List Char}
    {more : List (List Char)} (consists : ConsistsOf separator s (first :: second :: more)) :
    separator ∈ s := by
  rw [← consists.joined, List.intercalate_cons_cons]
  simp

end FieldPlot.Text
