import FieldPlot.Projection
import FieldPlot.Proofs.Grid
import FieldPlot.Proofs.Length
import Mathlib.Algebra.BigOperators.Group.List.Lemmas

/-!
Room for grids. An array can hold a grid with a row for each frame as long as there is a value in a
frame, since the grid is then no larger than all frames together. Only frames without values do not
bound it: without steps, or beside an axis of extent zero, an axis may be longer than any array.
-/
namespace FieldPlot

namespace Word

theorem addressable_pair_iff (rows columns : Nat) :
    Addressable [rows, columns] ↔ max 1 rows * max 1 columns ≤ arrayLimit := by
  rw [addressable_iff]
  cases rows with
  | zero => cases columns <;> simp
  | succ rows => cases columns <;> simp

/-- Part of a shape that can be addressed can be addressed, since axes of extent zero do not count. -/
theorem Addressable.sublist {part shape : List Nat} (addressable : Addressable shape)
    (sub : part.Sublist shape) : Addressable part := by
  rw [addressable_iff] at addressable ⊢
  have divides : (part.filter (· != 0)).prod ∣ (shape.filter (· != 0)).prod :=
    (sub.filter _).prod_dvd_prod
  have positive : 0 < (shape.filter (· != 0)).prod := by
    rw [List.prod_pos_iff_forall_pos_nat]
    intro e member
    exact Nat.pos_of_ne_zero (by simpa using (List.mem_filter.mp member).2)
  exact (Nat.le_of_dvd positive divides).trans addressable

end Word

namespace Grid

variable {α : Type}

def Addressable (g : Grid α) : Prop :=
  Word.Addressable [g.height, g.columns]

theorem allocate_of_addressable {height columns : Nat}
    (room : Word.Addressable [height, columns]) : allocate height columns = .ok () :=
  if_pos room

theorem allocate_of_not_addressable {height columns : Nat}
    (beyond : ¬ Word.Addressable [height, columns]) :
    allocate height columns = .error (.halt .array) :=
  if_neg beyond

theorem addressable_of_allocate {height columns : Nat} {done : Unit}
    (made : allocate height columns = .ok done) : Word.Addressable [height, columns] := by
  by_contra beyond
  rw [allocate_of_not_addressable beyond] at made
  contradiction

end Grid

section Frames

variable {α : Type}

/-- Frames in memory: neither the frames nor all their values are more than an array can hold. -/
structure InMemory (frames : List (List α)) : Prop where
  count : frames.length ≤ Word.arrayLimit
  values : frames.flatten.length ≤ Word.arrayLimit

/-- No frame has a value, and so many positions for each frame, or once where there is no frame, are
    more than an array can hold. -/
def Overreaches (frames : List (List α)) (extent : Nat) : Prop :=
  frames.flatten = [] ∧ Word.arrayLimit < max 1 frames.length * extent

/-- A row of the frames' extent for each frame: where the frames have values, that is not more than
    they have. -/
theorem addressable_iff_not_overreaches {frames : List (List α)} {extent length : Nat}
    (memory : InMemory frames) (same : ∀ frame ∈ frames, frame.length = length)
    (inside : length ≠ 0 → extent ≤ length) :
    Word.Addressable [frames.length, extent] ↔ ¬ Overreaches frames extent := by
  have count := Grid.length_flatten_of_length same
  rw [Word.addressable_pair_iff]
  by_cases empty : frames.flatten = []
  · have steps : max 1 frames.length ≤ Word.arrayLimit := max_le (by decide) memory.count
    simp only [Overreaches, empty, true_and, Nat.not_lt]
    cases extent with
    | zero => simpa using steps
    | succ extent => rw [Nat.max_eq_right (Nat.succ_le_succ (Nat.zero_le extent))]
  · have some : frames.length * length ≠ 0 := by
      rw [← count]
      exact fun none => empty (List.eq_nil_of_length_eq_zero none)
    obtain ⟨steps, long⟩ := Nat.mul_ne_zero_iff.mp some
    have rows : max 1 frames.length = frames.length := Nat.max_eq_right (Nat.pos_of_ne_zero steps)
    have columns : max 1 extent ≤ length := max_le (Nat.pos_of_ne_zero long) (inside long)
    refine iff_of_true ?_ fun overreaches => empty overreaches.1
    calc max 1 frames.length * max 1 extent
        ≤ frames.length * length := Nat.mul_le_mul rows.le columns
      _ = frames.flatten.length := count.symm
      _ ≤ Word.arrayLimit := memory.values

end Frames

namespace Header

variable {h : Header}

theorem extent_le_prod (h : Header) {axis : Nat} (declared : axis < h.rank)
    (filled : h.extents.prod ≠ 0) : h.extents.getD axis 0 ≤ h.extents.prod := by
  have bound : axis < h.extents.length := declared
  rw [List.getD_eq_getElem _ _ bound]
  exact Nat.le_of_dvd (Nat.pos_of_ne_zero filled) (List.dvd_prod (List.getElem_mem bound))

theorem addressable_of_axes {low high : Nat} (addressable : Word.Addressable h.arrayShape)
    (less : low < high) (declared : high < h.rank) :
    Word.Addressable [h.extents.getD high 0, h.extents.getD low 0] := by
  have bound : high < h.extents.length := declared
  have ordered : [(⟨low, less.trans bound⟩ : Fin h.extents.length), ⟨high, bound⟩].Pairwise (· < ·) :=
    List.pairwise_pair.mpr less
  have part := (List.map_getElem_sublist ordered).reverse
  rw [List.getD_eq_getElem _ _ bound, List.getD_eq_getElem _ _ (less.trans bound)]
  exact addressable.sublist part

theorem addressable_of_axis {axis : Nat} (addressable : Word.Addressable h.arrayShape)
    (declared : axis < h.rank) : Word.Addressable [1, h.extents.getD axis 0] := by
  have bound : axis < h.extents.length := declared
  have part : [h.extents[axis]].Sublist h.arrayShape := by
    rw [List.singleton_sublist, arrayShape, List.mem_reverse]
    exact List.getElem_mem bound
  have alone := (Word.addressable_iff _).mp (addressable.sublist part)
  rw [List.getD_eq_getElem _ _ bound, Word.addressable_iff,
    List.filter_cons_of_pos (by decide), List.prod_cons, Nat.one_mul]
  exact alone

section Filled

variable {α : Type} {frames : List (List α)} {axis : Nat} (filled : h.extents.prod ≠ 0)
  (short : h.extents.prod ≤ Word.arrayLimit) (declared : axis < h.rank)
  (fits : ∀ frame ∈ frames, frame.length = h.extents.prod)
include filled short declared fits

/-- Frames that have values reach over every axis, and without frames no axis is too long. -/
theorem not_overreaches : ¬ Overreaches frames (h.extents.getD axis 0) := by
  rintro ⟨empty, beyond⟩
  cases frames with
  | nil =>
    rw [List.length_nil, Nat.max_eq_left (Nat.zero_le 1), Nat.one_mul] at beyond
    have inside := h.extent_le_prod declared filled
    omega
  | cons frame frames =>
    have none : frame = [] := (List.flatten_eq_nil_iff.mp empty) frame List.mem_cons_self
    have long := fits frame List.mem_cons_self
    rw [none, List.length_nil] at long
    exact filled long.symm

theorem room_of_memory (memory : InMemory frames) :
    Word.Addressable [frames.length, h.extents.getD axis 0] :=
  (addressable_iff_not_overreaches memory fits fun _ => h.extent_le_prod declared filled).mpr
    (not_overreaches filled short declared fits)

end Filled

end Header
end FieldPlot
