import FieldPlot.Proofs.Bounds
import FieldPlot.Proofs.Marked
import FieldPlot.Proofs.Plottable

/-!
Ranges that are reported. The range of a list is tight whatever the order of its values, what else is
in the list and how it is parted. A recording of one channel along one axis shows all its values in
its time course, so both report one range.
-/
namespace FieldPlot

namespace Recording

variable {r : Recording} {q : Request}

theorem frames_along_line (rank : r.rank = 1) (single : r.header.channels = 1)
    (counts : ∀ e ∈ r.header.extents, e ≤ Word.limit) :
    r.header.elementCount = r.header.extents.prod ∧
      ∀ frame ∈ r.frames, frame.length = r.header.extents.prod := by
  obtain ⟨extent, shape⟩ := List.length_eq_one_iff.mp rank
  have product : r.header.extents.prod = extent := by rw [shape, List.prod_singleton]
  have small : extent ≤ Word.limit := counts extent (by simp [shape])
  have length : r.header.frameLength = extent := by
    rw [Header.frameLength_of_line rank, single, shape, List.getD_cons_zero, Word.mulClamped,
      Nat.one_mul, Nat.min_eq_left small]
  rw [Header.elementCount_eq, product, Nat.min_eq_left small]
  exact ⟨rfl, fun frame member => (r.frames_length frame member).trans length⟩

theorem range_of_timeCourse {marked : Option Nat} {f : Figure} (rank : r.rank = 1)
    (done : r.timeCourse q marked = .ok f) : f.content.range = r.range := by
  obtain ⟨_, layout, marker, shows, _, rfl⟩ := showsCourse_of_timeCourse done
  cases shows with
  | series none => omega
  | profiles many selected projected => omega
  | frames _ laid =>
    obtain ⟨_, _, rows⟩ := parts_of_frameRows laid
    unfold Recording.range
    rw [← rows]
    rfl

theorem exists_timeCourse_of_line (rank : r.rank = 1) (single : r.header.channels = 1)
    (counts : ∀ e ∈ r.header.extents, e ≤ Word.limit)
    (room : Word.Addressable [r.steps, r.header.extents.getD 0 0]) (plotted : q.style ≠ .image)
    {marked : Option Nat} (inRange : ∀ step ∈ marked, step < r.steps) :
    ∃ f, r.timeCourse q marked = .ok f := by
  obtain ⟨counted, fits⟩ := frames_along_line rank single counts
  obtain ⟨grid, laid⟩ := frameRows_of_fit counted rank fits room
  have unmarked : r.timeCourse q none =
      .ok (q.figure .timeCourse none { content := .grid grid, columnAxis := some ⟨0⟩ }) := by
    rw [timeCourse_of_plotted plotted, courseLayout_of_line rank, laid]
    rfl
  cases marked with
  | none => exact ⟨_, unmarked⟩
  | some step =>
    obtain ⟨marker, placed, _⟩ := markerAt_of_inRange q (.grid grid) (inRange step rfl)
    have content : (q.figure .timeCourse none
      { content := .grid grid, columnAxis := some ⟨0⟩ }).content = .grid grid := rfl
    rw [timeCourse_marked, unmarked]
    simp only [bind, Except.bind, content, placed]
    exact ⟨_, rfl⟩

end Recording

namespace Bounds

/-- A list has a range unless none of its values is finite, and the range is tight. Up to the signs of
    zeros it is that of the same values in any order and among any that are not finite, and the ranges
    of parts join to it. A recording along one axis has the range of its time course, which with one
    channel is made as long as an array can hold a row for each step. -/
theorem ranges_are_tight :
    (∀ values : List Float,
      (finite values = none ↔ ∀ v ∈ values, v.isFinite = false) ∧
      (∀ low high, finite values = some (low, high) → Tight values low high) ∧
      (∀ infinite listed : List Float, (∀ v ∈ infinite, v.isFinite = false) →
        listed.Perm (values ++ infinite) → SameRange (finite listed) (finite values)) ∧
      ∀ parts : List (List Float), parts.flatten.Perm values →
        SameRange ((parts.map finite).foldl join none) (finite values)) ∧
    ∀ (r : Recording) (q : Request) (marked : Option Nat), r.rank = 1 →
      (∀ f, r.timeCourse q marked = .ok f → f.content.Addressable ∧ f.content.range = r.range) ∧
      (r.header.channels = 1 → (∀ e ∈ r.header.extents, e ≤ Word.limit) →
        Word.Addressable [r.steps, r.header.extents.getD 0 0] → q.style ≠ .image →
        (∀ step ∈ marked, step < r.steps) → ∃ f, r.timeCourse q marked = .ok f) := by
  constructor
  · intro values
    refine ⟨finite_eq_none_iff, fun low high => tight_of_finite, ?_, ?_⟩
    · intro infinite listed others same
      have spans := (spans_finite values).append_infinite others
      exact (spans_finite listed).same (spans.congr fun v _ => same.mem_iff.symm)
    · intro parts whole
      have spans := (spans_parts parts).congr fun v _ => whole.mem_iff
      exact spans.same (spans_finite values)
  · intro r q marked rank
    refine ⟨fun f done => ⟨Recording.addressable_of_timeCourse done,
      Recording.range_of_timeCourse rank done⟩, fun single counts room plotted inRange => ?_⟩
    exact Recording.exists_timeCourse_of_line rank single counts room plotted inRange

theorem ranges_of_zeros :
    (∀ v ∈ [1 / 0, 0 / 0], Float.isFinite v = false) ∧
    [0 / 0, -0, 1 / 0, 2, 0].Perm ([0, 2, -0] ++ [1 / 0, 0 / 0] : List Float) ∧
    finite [0, 2, -0] = some (-0, 2) ∧ Tight [0, 2, -0] (-0) 2 ∧
    finite [0 / 0, -0, 1 / 0, 2, 0] = some (0, 2) ∧ SameRange (some (0, 2)) (some (-0, 2)) ∧
    SameRange (([[2], [-0, 0]].map finite).foldl join none) (some (-0, 2)) ∧
    ∃ f, Recording.strip.timeCourse {} (some 1) = .ok f ∧ f.content.range = some (1, 6) := by
  obtain ⟨lists, recordings⟩ := ranges_are_tight
  obtain ⟨_, tight, listings, parts⟩ := lists [0, 2, -0]
  have infinite : ∀ v ∈ [1 / 0, 0 / 0], Float.isFinite v = false := by decide +kernel
  have order : [0 / 0, -0, 1 / 0, 2, 0].Perm ([0, 2, -0] ++ [1 / 0, 0 / 0] : List Float) := by
    decide +kernel
  have parted : [[2], [-0, 0]].flatten.Perm ([0, 2, -0] : List Float) := by decide +kernel
  have range : finite [0, 2, -0] = some (-0, 2) := by decide +kernel
  have other : finite [0 / 0, -0, 1 / 0, 2, 0] = some (0, 2) := by decide +kernel
  refine ⟨infinite, order, range, tight (-0) 2 range, other, ?_, ?_, ?_⟩
  · rw [← range, ← other]
    exact listings _ _ infinite order
  · rw [← range]
    exact parts _ parted
  · obtain ⟨returned, made⟩ := recordings Recording.strip {} (some 1) (by decide)
    obtain ⟨f, done⟩ := made (by decide) (by decide) (by decide) (by decide) (by decide)
    exact ⟨f, done, (returned f done).2.trans (by decide +kernel)⟩

end Bounds
end FieldPlot
