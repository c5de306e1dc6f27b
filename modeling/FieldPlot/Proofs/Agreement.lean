import FieldPlot.Proofs.Layouts

/-!
Figures that agree. A snapshot along one axis is the row of its step in the time course, since
frames are projected one by one; only where no array has room for all rows, the time course halts
the program and the snapshot does not. Of data with two axes, the plain snapshot and the projection
onto both axes are the same grid. In each case, what is refused the one way is refused the other way
for the same cause.
-/
namespace FieldPlot

inductive Agree {ε β γ : Type} (alike : β → γ → Prop) : Except ε β → Except ε γ → Prop where
  | made {x : β} {y : γ} (both : alike x y) : Agree alike (.ok x) (.ok y)
  | refused (cause : ε) : Agree alike (.error cause) (.error cause)

namespace Agree

variable {ε β γ : Type} {alike : β → γ → Prop} {x : Except ε β} {y : Except ε γ}

theorem of_ok (agree : Agree alike x y) {a : β} (made : x = .ok a) :
    ∃ b, y = .ok b ∧ alike a b := by
  subst made
  cases agree with
  | made both => exact ⟨_, rfl, both⟩

theorem of_error (agree : Agree alike x y) {cause : ε} (fails : x = .error cause) :
    y = .error cause := by
  subst fails
  cases agree with
  | refused => rfl

end Agree

namespace Recording

variable {r : Recording} {q : Request} {axis : Axis}

def boxes : Recording where
  header := Projection.box
  times := [0, 1]
  frames := [Projection.boxFrame, Projection.boxFrame.reverse]
  times_length := rfl
  frames_length := by decide

def twoChannels : Recording where
  header := ⟨"Mat", "CV_32FC2", [1, 2]⟩
  times := [0]
  frames := [[1, 2, 3, 4]]
  times_length := rfl
  frames_length := by decide

def secondAxis : Request := { selection := .single ⟨1⟩, method := .sum }

/-- Two steps without values: an axis of extent zero beside one that is half as long as the longest
    array. -/
def hollow : Recording where
  header := Header.ofExtents [4611686018427387904, 0]
  times := [0, 1]
  frames := [[], []]
  times_length := by decide
  frames_length := by decide

def firstAxis : Request := { selection := .single ⟨0⟩ }

/-- Both figures are this frame as a grid, the second axis along the rows and the first along the
    columns, where the first varies fastest. -/
structure ShowFrame (h : Header) (frame : List Float) (a b : Figure) : Prop where
  cells : ∃ grid : Grid Float, a.content = .grid grid ∧ b.content = .grid grid ∧
    grid.Meshed (h.extents.getD 1 0) (h.extents.getD 0 0) ∧
    ∀ r c, r < h.extents.getD 1 0 → c < h.extents.getD 0 0 →
      grid.cell? r c = frame[r * h.extents.getD 0 0 + c]?
  rowAxes : a.rowAxis = some ⟨1⟩ ∧ b.rowAxis = some ⟨1⟩
  columnAxes : a.columnAxis = some ⟨0⟩ ∧ b.columnAxis = some ⟨0⟩

/-- With two axes nothing collapses: the projection onto both is the frame as it was recorded. -/
theorem plane_eq_plainGrid (rule : LaneRule Float) {h : Header} (rank : h.rank = 2)
    {frames : List (List Float)} {step : Nat} {a b : Axis} {frame : List Float}
    (named : a.index = 1 ∧ b.index = 0 ∨ a.index = 0 ∧ b.index = 1)
    (found : frames[step]? = some frame) (addressable : Word.Addressable h.arrayShape)
    (fits : frame.length = h.extents.prod) :
    ∃ grid : Grid Float, plainGrid h frame = .ok grid ∧
      Projection.onPlane rule h frames step a b = .ok ⟨⟨1⟩, ⟨0⟩, grid⟩ ∧
      grid.Meshed (h.extents.getD 1 0) (h.extents.getD 0 0) ∧
      ∀ r c, r < h.extents.getD 1 0 → c < h.extents.getD 0 0 →
        grid.cell? r c = frame[r * h.extents.getD 0 0 + c]? := by
  obtain ⟨wide, high, shape⟩ := List.length_eq_two.mp rank
  have total : frame.length = wide * high := by simpa [shape] using fits
  have plane := Projection.onPlane_of_fit rule h frames step addressable Nat.zero_lt_one
    (rank ▸ Nat.one_lt_two) named found fits
  have cell : ∀ r c, Declared.project rule h.extents [1, 0] frame (crossing 1 r c) =
      frame.getD (r * wide + c) default := by
    intro r c
    have all : Declared.others h.extents.length [1, 0] = [] := by
      rw [shape]
      rfl
    rw [Declared.project, all, Declared.collapseAll, List.foldl_nil, Declared.ofFrame, shape]
    simp [place, Finset.sum_range_succ, crossing, Nat.add_comm]
  refine ⟨_, ?_, plane, ?_, ?_⟩
  · rw [plainGrid, h.tensor_of_fit frame addressable fits]
    simp only [cell]
    simp [bind, Except.bind, pure, Except.pure, Tensor.ofValues, Header.arrayShape, shape, offset,
      volume]
  · exact Grid.meshed_ofFn _ _ _
  · intro r c low left
    have bound : r * wide + c < frame.length := by
      simp only [shape, List.getD_cons_succ, List.getD_cons_zero] at low left
      calc
        r * wide + c < r * wide + wide := by omega
        _ = wide * (r + 1) := by rw [Nat.mul_succ, Nat.mul_comm]
        _ ≤ wide * high := Nat.mul_le_mul_left wide low
        _ = frame.length := total.symm
    rw [Grid.cell?_ofFn _ low left, cell, shape]
    simp [bound]

/-- Data with two axes looks the same unprojected and projected onto both axes, in either order. -/
theorem plain_snapshot_is_projection (r : Recording) (q : Request) (pair : Selection) (step : Nat)
    (rank : r.rank = 2) (plotted : q.style ≠ .image)
    (both : pair = .pair ⟨0⟩ ⟨1⟩ ∨ pair = .pair ⟨1⟩ ⟨0⟩) :
    Agree (fun a b => ∃ frame, r.frames[step]? = some frame ∧ ShowFrame r.header frame a b)
      (r.snapshot { q with selection := .unprojected } step)
      (r.snapshot { q with selection := pair } step) := by
  obtain ⟨first, second, rfl, named⟩ : ∃ first second : Axis, pair = .pair first second ∧
      (first.index = 1 ∧ second.index = 0 ∨ first.index = 0 ∧ second.index = 1) := by
    rcases both with rfl | rfl
    · exact ⟨_, _, rfl, .inr ⟨rfl, rfl⟩⟩
    · exact ⟨_, _, rfl, .inl ⟨rfl, rfl⟩⟩
  cases found : r.frames[step]? with
  | none =>
    have late : r.steps ≤ step := List.getElem?_eq_none_iff.mp found
    rw [snapshot, snapshot, snapshotIn_of_late .snapshot late, snapshotIn_of_late .snapshot late]
    exact .refused _
  | some frame =>
    have many : 2 ≤ r.rank := rank.ge
    have headRank : r.header.rank = 2 := rank
    have shown : ∀ s, { q with selection := s }.style ≠ .image := fun _ => plotted
    rw [snapshot, snapshot, snapshotIn_of_plotted .snapshot (shown _) found,
      snapshotIn_of_plotted .snapshot (shown _) found, snapshotLayout_of_rank many,
      snapshotLayout_of_rank many]
    simp only [rank, if_true]
    -- Both ways lay out the frame as the same array, and nothing else can fail.
    rcases r.header.tensor_fits_or_cause (α := Float) frame.length with
      ⟨addressable, fits⟩ | ⟨cause, -, refused⟩
    · obtain ⟨grid, plain, plane, meshed, cells⟩ :=
        plane_eq_plainGrid q.method.rule headRank named found addressable fits
      rw [plain, plane]
      exact .made ⟨frame, rfl, ⟨grid, rfl, rfl, meshed, cells⟩, ⟨rfl, rfl⟩, rfl, rfl⟩
    · have apart : first ≠ second := by
        rintro rfl
        omega
      have plain : plainGrid r.header frame = .error cause := by
        rw [plainGrid, refused frame rfl]
        rfl
      rw [plain, Projection.onPlane_of_refused q.method.rule r.header (by omega) (by omega) apart
        found (refused frame rfl)]
      exact .refused cause

def sheet : Recording where
  header := Header.ofExtents [2, 3]
  times := [0]
  frames := [[1, 2, 3, 4, 5, 6]]
  times_length := rfl
  frames_length := by decide

theorem plain_snapshot_of_sheet :
    (∃ plain projected, sheet.snapshot {} 0 = .ok plain ∧
      sheet.snapshot { selection := .pair ⟨0⟩ ⟨1⟩ } 0 = .ok projected ∧
      plain.content.values = [1, 2, 3, 4, 5, 6] ∧
      ∃ frame, sheet.frames[0]? = some frame ∧ ShowFrame sheet.header frame plain projected) ∧
    (∃ cause, twoChannels.snapshot {} 0 = .error cause ∧
      twoChannels.snapshot { selection := .pair ⟨1⟩ ⟨0⟩ } 0 = .error cause) := by
  constructor
  · have agree := plain_snapshot_is_projection sheet {} (.pair ⟨0⟩ ⟨1⟩) 0 rfl (by decide)
      (.inl rfl)
    have values : (sheet.snapshot {} 0).map (·.content.values) = .ok [1, 2, 3, 4, 5, 6] := by
      decide +kernel
    obtain ⟨plain, done, values⟩ := map_eq_ok values
    obtain ⟨projected, done', alike⟩ := agree.of_ok done
    exact ⟨plain, projected, done, done', values, alike⟩
  · have agree := plain_snapshot_is_projection twoChannels {} (.pair ⟨1⟩ ⟨0⟩) 0 rfl (by decide)
      (.inr rfl)
    have fails : twoChannels.snapshot {} 0 = .error (.shapeMismatch [1, 2] 2 4 none) := rfl
    exact ⟨_, fails, agree.of_error fails⟩

end Recording
end FieldPlot
