import FieldPlot.Proofs.Projection

/-!
Which frames are projected. Frames are projected one by one, and what has been projected fits its
header. Only the length of a frame decides: frames of one length are all projected, each to the same
row wherever it stands, or are all refused for the same cause (`onAxis_rows_or_cause`). How many
there are matters in one way, that there is no room for too many rows.
-/
namespace FieldPlot

/-- A refusal for what the data is or what is asked of it: no step is out of range, and the program
    goes on. -/
def Error.OfData : Error → Prop
  | stepOutOfRange _ _ => False
  | halt _ => False
  | _ => True

namespace Header

variable {α : Type} [Inhabited α] {h : Header} {frame : List α}

theorem declared_of_resolve {axis : Axis} {k : Nat} (resolved : h.resolve axis = .ok k) :
    axis.index < h.rank ∧ axis.index = k := by
  by_cases declared : axis.index < h.rank
  · rw [h.resolve_of_declared declared] at resolved
    exact ⟨declared, Except.ok.inj resolved⟩
  · rw [h.resolve_of_undeclared (Nat.not_lt.mp declared)] at resolved
    contradiction

theorem fit_of_tensor {t : Tensor α} (done : h.tensor frame = .ok t) :
    Word.Addressable h.arrayShape ∧ frame.length = h.extents.prod := by
  by_cases count : frame.length = h.elementCount
  · by_cases addressable : Word.Addressable h.arrayShape
    · exact ⟨addressable, count.trans (h.elementCount_of_addressable addressable)⟩
    · rw [h.tensor_of_not_addressable frame count addressable] at done
      contradiction
  · rw [h.tensor_of_misfit frame count] at done
    contradiction

theorem ofData_of_tensor {cause : Error} (fails : h.tensor frame = .error cause) :
    cause.OfData := by
  by_cases count : frame.length = h.elementCount
  · by_cases addressable : Word.Addressable h.arrayShape
    · rw [h.tensor_of_fit frame addressable
        (count.trans (h.elementCount_of_addressable addressable))] at fails
      contradiction
    · rw [h.tensor_of_not_addressable frame count addressable] at fails
      obtain rfl := Except.error.inj fails
      trivial
  · rw [h.tensor_of_misfit frame count] at fails
    obtain rfl := Except.error.inj fails
    trivial

theorem tensor_fits_or_cause (h : Header) (n : Nat) :
    Word.Addressable h.arrayShape ∧ n = h.extents.prod ∨
      ∃ cause : Error, cause.OfData ∧
        ∀ frame : List α, frame.length = n → h.tensor frame = .error cause := by
  by_cases count : n = h.elementCount
  · by_cases addressable : Word.Addressable h.arrayShape
    · exact .inl ⟨addressable, count.trans (h.elementCount_of_addressable addressable)⟩
    · exact .inr ⟨.projection .unaddressable, trivial, fun frame long =>
        h.tensor_of_not_addressable frame (long.trans count) addressable⟩
  · refine .inr ⟨.shapeMismatch h.extents h.elementCount n none, trivial, fun frame long => ?_⟩
    rw [h.tensor_of_misfit frame (long ▸ count), long]

end Header

namespace Projection

variable {α : Type} [Inhabited α] {rule : LaneRule α} {h : Header}

theorem fit_of_profile {k : Nat} {frame row : List α} (done : profile rule h k frame = .ok row) :
    Word.Addressable h.arrayShape ∧ frame.length = h.extents.prod := by
  rw [profile] at done
  obtain ⟨_, array, _⟩ := bind_eq_ok done
  exact Header.fit_of_tensor array

structure Projected (rule : LaneRule α) (h : Header) (frames : List (List α)) (axis : Axis)
    (grid : Grid α) : Prop where
  declared : axis.index < h.rank
  room : Word.Addressable [frames.length, h.extents.getD axis.index 0]
  columns : grid.columns = h.extents.getD axis.index 0
  rows : List.Forall₂ (fun frame row => profile rule h axis.index frame = .ok row) frames grid.rows

theorem projected_of_onAxis {frames : List (List α)} {axis : Axis} {grid : Grid α}
    (done : onAxis rule h frames axis = .ok grid) : Projected rule h frames axis grid := by
  rw [onAxis] at done
  obtain ⟨k, resolved, done⟩ := bind_eq_ok done
  obtain ⟨declared, rfl⟩ := Header.declared_of_resolve resolved
  obtain ⟨_, _, done⟩ := bind_eq_ok done
  obtain ⟨_, allocated, done⟩ := bind_eq_ok done
  obtain ⟨rows, found, done⟩ := bind_eq_ok done
  split at done
  · rename_i made
    obtain rfl := Except.ok.inj done
    obtain ⟨columns, rfl⟩ := Grid.parts_of_ofRows? made
    exact ⟨declared, Grid.addressable_of_allocate allocated, columns, forall₂_of_mapM found⟩
  · contradiction

namespace Projected

variable {frames : List (List α)} {axis : Axis} {grid : Grid α}
  (projected : Projected rule h frames axis grid)
include projected

theorem fits : ∀ frame ∈ frames, Word.Addressable h.arrayShape ∧ frame.length = h.extents.prod := by
  have fitting := projected.rows.imp fun frame row made => And.intro (fit_of_profile made) made
  exact ((List.forall₂_and_left _ _).mp fitting).1

theorem height : grid.height = frames.length :=
  projected.rows.length_eq.symm

theorem addressable : grid.Addressable := by
  rw [Grid.Addressable, projected.height, projected.columns]
  exact projected.room

end Projected

theorem suits_of_onPlane {frames : List (List α)} {step : Nat} {a b : Axis} {plane : Plane α}
    (done : onPlane rule h frames step a b = .ok plane) :
    Suits h frames step a b (frames.getD step []) := by
  apply suits_of_no_fault
  cases fault : planeFault? h frames step a b with
  | none => rfl
  | some cause =>
    rw [onPlane_of_fault rule h fault] at done
    contradiction

theorem axes_of_onPlane {frames : List (List α)} {step : Nat} {a b : Axis} {plane : Plane α}
    (done : onPlane rule h frames step a b = .ok plane) :
    plane.rowAxis.index = max a.index b.index ∧ plane.columnAxis.index = min a.index b.index ∧
      plane.grid.Meshed (h.extents.getD (max a.index b.index) 0)
        (h.extents.getD (min a.index b.index) 0) := by
  obtain ⟨same, done', _, row, column, meshed, _⟩ := onPlane_cells rule h (suits_of_onPlane done)
  obtain rfl := Except.ok.inj (done.symm.trans done')
  exact ⟨row, column, meshed⟩

theorem meshed_of_onPlane {frames : List (List α)} {step : Nat} {a b : Axis} {plane : Plane α}
    (done : onPlane rule h frames step a b = .ok plane) :
    plane.rowAxis.index < h.rank ∧ plane.columnAxis.index < h.rank ∧
      plane.grid.Meshed (h.extents.getD plane.rowAxis.index 0)
        (h.extents.getD plane.columnAxis.index 0) := by
  have suits := suits_of_onPlane done
  obtain ⟨row, column, meshed⟩ := axes_of_onPlane done
  rw [row, column]
  exact ⟨max_lt suits.first suits.second, (min_le_left _ _).trans_lt suits.first, meshed⟩

variable (rule h)

theorem onAxis_of_refused {frames : List (List α)} {axis : Axis} {cause : Error}
    (declared : axis.index < h.rank) (some : frames ≠ [])
    (refused : ∀ frame ∈ frames, h.tensor frame = .error cause) :
    onAxis rule h frames axis = .error cause := by
  cases frames with
  | nil => contradiction
  | cons first others =>
    have fails : h.tensor first = .error cause := refused first List.mem_cons_self
    rw [onAxis, h.resolve_of_declared declared]
    simp [bind, Except.bind, discard, Functor.mapConst, Except.map, fails]

theorem onPlane_of_refused {frames : List (List α)} {step : Nat} {a b : Axis} {frame : List α}
    {cause : Error} (first : a.index < h.rank) (second : b.index < h.rank) (apart : a ≠ b)
    (found : frames[step]? = some frame) (refused : h.tensor frame = .error cause) :
    onPlane rule h frames step a b = .error cause := by
  have other : a.index ≠ b.index := fun same => apart (congrArg Axis.mk same)
  have two : ¬ h.rank < 2 := by omega
  rw [onPlane]
  simp only [two, apart, if_false, h.resolve_of_declared first, h.resolve_of_declared second, found,
    refused, bind, Except.bind]

/-- Frames of one length each have their row, whichever frames stand beside them, as long as there is
    room for all rows; or none of them is projected, and the cause is the same. -/
theorem onAxis_rows_or_cause (axis : Axis) (n : Nat) :
    (axis.index < h.rank ∧ Word.Addressable h.arrayShape ∧ n = h.extents.prod ∧
      ∃ row : List α → List α, ∀ frames, (∀ frame ∈ frames, frame.length = n) →
        (Word.Addressable [frames.length, h.extents.getD axis.index 0] →
          ∃ grid, onAxis rule h frames axis = .ok grid ∧ grid.rows = frames.map row) ∧
        (¬ Word.Addressable [frames.length, h.extents.getD axis.index 0] →
          onAxis rule h frames axis = .error (.halt .array))) ∨
    ∃ cause : Error, cause.OfData ∧ ∀ frames : List (List α), frames ≠ [] →
      (∀ frame ∈ frames, frame.length = n) → onAxis rule h frames axis = .error cause := by
  by_cases declared : axis.index < h.rank
  · rcases h.tensor_fits_or_cause (α := α) n with ⟨addressable, rfl⟩ | ⟨cause, ofData, refused⟩
    · -- The row is a function of its own frame, so other frames beside it change nothing.
      refine .inl ⟨declared, addressable, rfl, fun frame =>
        (List.range (h.extents.getD axis.index 0)).map fun p =>
          Declared.project rule h.extents [axis.index] frame fun _ => p,
        fun frames long => ⟨fun room => ?_, fun beyond => ?_⟩⟩
      · obtain ⟨grid, done, _, rows⟩ := onAxis_of_fit rule h frames addressable declared room long
        exact ⟨grid, done, rows⟩
      · exact onAxis_of_beyond rule h frames declared (laid_of_fit addressable long) beyond
    · exact .inr ⟨cause, ofData, fun frames some long => onAxis_of_refused rule h declared some
        fun frame member => refused frame (long frame member)⟩
  · exact .inr ⟨.undefinedAxis axis h.rank, trivial, fun frames _ _ =>
      onAxis_of_undeclared rule h frames (Nat.not_lt.mp declared)⟩

end Projection
end FieldPlot
