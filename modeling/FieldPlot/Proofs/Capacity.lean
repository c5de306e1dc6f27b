import FieldPlot.Proofs.Agreement
import FieldPlot.Proofs.Refusals
import FieldPlot.Proofs.Sizes
import FieldPlot.Recording.Reading

/-!
Where planning halts. The grid of a snapshot is a part of the array of its frame, so an array can hold
it. The grid of a time course has a row for each frame; where no array can hold that many the program
halts, and for frames in memory that is where they have no values and `Overreaches` says so.
-/
namespace FieldPlot

def Content.Addressable : Content → Prop
  | .grid cells => cells.Addressable
  | .line _ => True
  | .image _ => True

namespace Projection

variable {α : Type} [Inhabited α] {rule : LaneRule α} {h : Header} {frames : List (List α)}

/-- Without frames nothing is laid out: only the grid can be too large. -/
theorem onAxis_nil_halts_iff {axis : Axis} (declared : axis.index < h.rank) (cause : Halt) :
    onAxis rule h [] axis = .error (.halt cause) ↔
      cause = .array ∧ ¬ Word.Addressable [0, h.extents.getD axis.index 0] := by
  by_cases room : Word.Addressable [0, h.extents.getD axis.index 0]
  · refine iff_of_false (fun halts => ?_) fun beyond => beyond.2 room
    rw [onAxis, h.resolve_of_declared declared] at halts
    simp only [bind, Except.bind, List.length_nil, Grid.allocate_of_addressable room] at halts
    contradiction
  · rw [onAxis_of_beyond rule h [] declared (List.forall_mem_nil _) room]
    simp only [Except.error.injEq, Error.halt.injEq, room, not_false_eq_true, and_true]
    exact eq_comm

/-- Frames of one length are projected, or refused, or a grid of them is what no array can hold. -/
theorem onAxis_halts_iff {n : Nat} (long : ∀ frame ∈ frames, frame.length = n) (axis : Axis)
    (cause : Halt) :
    onAxis rule h frames axis = .error (.halt cause) ↔ cause = .array ∧ axis.index < h.rank ∧
      (∀ frame ∈ frames, ∃ t, h.tensor frame = .ok t) ∧
      ¬ Word.Addressable [frames.length, h.extents.getD axis.index 0] := by
  constructor
  · intro halts
    by_cases declared : axis.index < h.rank
    · by_cases none : frames = []
      · subst none
        obtain ⟨full, beyond⟩ := (onAxis_nil_halts_iff declared cause).mp halts
        exact ⟨full, declared, List.forall_mem_nil _, beyond⟩
      · rcases onAxis_rows_or_cause rule h axis n with
          ⟨_, addressable, rfl, row, projected⟩ | ⟨other, ofData, refused⟩
        · obtain ⟨makes, stops⟩ := projected frames long
          have laid : ∀ frame ∈ frames, ∃ t, h.tensor frame = .ok t := fun frame member =>
            ⟨_, h.tensor_of_fit frame addressable (long frame member)⟩
          by_cases room : Word.Addressable [frames.length, h.extents.getD axis.index 0]
          · obtain ⟨grid, done, _⟩ := makes room
            rw [done] at halts
            contradiction
          · have same := Error.halt.inj (Except.error.inj ((stops room).symm.trans halts))
            exact ⟨same.symm, declared, laid, room⟩
        · rw [refused frames none long] at halts
          obtain rfl := Except.error.inj halts
          exact ofData.elim
    · rw [onAxis_of_undeclared rule h frames (Nat.not_lt.mp declared)] at halts
      exact nomatch Except.error.inj halts
  · rintro ⟨rfl, declared, laid, beyond⟩
    exact onAxis_of_beyond rule h frames declared
      (fun frame member => laid frame (List.mem_of_mem_take member)) beyond

theorem addressable_of_onPlane {step : Nat} {a b : Axis} {plane : Plane α}
    (done : onPlane rule h frames step a b = .ok plane) : plane.grid.Addressable := by
  have suits := suits_of_onPlane done
  obtain ⟨_, _, meshed⟩ := axes_of_onPlane done
  rw [Grid.Addressable, meshed.height_eq, meshed.columns_eq]
  exact Header.addressable_of_axes suits.addressable suits.less (max_lt suits.first suits.second)

end Projection

namespace Recording

variable {r : Recording} {q : Request}

theorem addressable_of_plainGrid {h : Header} {frame : List Float} {grid : Grid Float}
    (rank : h.rank = 2) (laid : plainGrid h frame = .ok grid) : grid.Addressable := by
  have meshed := meshed_of_plainGrid laid
  rw [plainGrid] at laid
  obtain ⟨_, array, _⟩ := bind_eq_ok laid
  rw [Grid.Addressable, meshed.height_eq, meshed.columns_eq]
  exact Header.addressable_of_axes (Header.fit_of_tensor array).1 Nat.zero_lt_one rank.ge

theorem addressable_of_showsStep {step : Nat} {frame : List Float} {layout : Layout}
    (shows : ShowsStep r q step frame layout) : layout.content.Addressable := by
  cases shows with
  | image asked decoded => trivial
  | scalar plotted rank => trivial
  | line plotted rank => trivial
  | plane plotted rank selected projected => exact Projection.addressable_of_onPlane projected
  | profile plotted rank selected projected => trivial
  | plain plotted rank selected laid => exact addressable_of_plainGrid rank laid

theorem addressable_of_snapshotIn {mode : Mode} {step : Nat} {f : Figure}
    (done : r.snapshotIn mode q step = .ok f) : f.content.Addressable := by
  obtain ⟨frame, layout, _, shows, rfl⟩ := showsStep_of_snapshotIn done
  exact addressable_of_showsStep shows

theorem addressable_of_showsCourse {layout : Layout} (shows : ShowsCourse r q layout) :
    layout.content.Addressable := by
  cases shows with
  | series rank => trivial
  | frames rank laid =>
    obtain ⟨room, columns, rows⟩ := parts_of_frameRows laid
    rw [← columns, ← rows] at room
    exact room
  | profiles rank selected projected => exact (Projection.projected_of_onAxis projected).addressable

theorem addressable_of_timeCourse {marked : Option Nat} {f : Figure}
    (done : r.timeCourse q marked = .ok f) : f.content.Addressable := by
  obtain ⟨_, layout, marker, shows, _, rfl⟩ := showsCourse_of_timeCourse done
  exact addressable_of_showsCourse shows

def LaysOut (r : Recording) : Prop :=
  ∀ frame ∈ r.frames, ∃ t, r.header.tensor frame = .ok t

theorem LaysOut.room_iff (laid : r.LaysOut) (memory : InMemory r.frames) {axis : Nat}
    (declared : axis < r.rank) :
    Word.Addressable [r.frames.length, r.header.extents.getD axis 0] ↔
      ¬ Overreaches r.frames (r.header.extents.getD axis 0) := by
  have fits : ∀ frame ∈ r.frames, frame.length = r.header.extents.prod := by
    intro frame member
    obtain ⟨t, done⟩ := laid frame member
    exact (Header.fit_of_tensor done).2
  exact addressable_iff_not_overreaches memory fits (r.header.extent_le_prod declared)

theorem onAxis_halts_iff_overreaches (memory : InMemory r.frames) (rule : LaneRule Float)
    (axis : Axis) (cause : Halt) :
    Projection.onAxis rule r.header r.frames axis = .error (.halt cause) ↔ cause = .array ∧
      axis.index < r.rank ∧ r.LaysOut ∧
      Overreaches r.frames (r.header.extents.getD axis.index 0) := by
  rw [Projection.onAxis_halts_iff r.frames_length]
  refine and_congr_right fun _ => and_congr_right fun declared => and_congr_right fun laid => ?_
  rw [LaysOut.room_iff laid memory declared, not_not]

/-- Channels only make frames longer, so a frame in memory reaches over the axis. -/
theorem room_iff_of_line (rank : r.rank = 1) (memory : InMemory r.frames) :
    Word.Addressable [r.frames.length, r.header.extents.getD 0 0] ↔
      ¬ Overreaches r.frames (r.header.extents.getD 0 0) := by
  by_cases none : r.frames = []
  · exact addressable_iff_not_overreaches memory (by simp [none]) fun _ => le_rfl
  · refine addressable_iff_not_overreaches memory r.frames_length fun _ => ?_
    obtain ⟨frame, member⟩ := List.exists_mem_of_ne_nil _ none
    have short : frame.length ≤ r.frames.flatten.length :=
      (List.sublist_flatten_of_mem member).length_le
    have bound : r.header.frameLength < 2 ^ 63 := by
      rw [← r.frames_length frame member]
      exact Nat.lt_succ_of_le (short.trans memory.values)
    obtain ⟨extent, shape⟩ := List.length_eq_one_iff.mp rank
    rw [Header.frameLength_of_lt bound, shape, List.prod_singleton, List.getD_cons_zero]
    exact Nat.le_mul_of_pos_left _ r.header.channels_pos

theorem frameRows_halts_iff (h : Header) (frames : List (List Float)) (cause : Halt) :
    frameRows h frames = .error (.halt cause) ↔
      cause = .array ∧ ¬ Word.Addressable [frames.length, h.extents.getD 0 0] := by
  rw [frameRows]
  by_cases room : Word.Addressable [frames.length, h.extents.getD 0 0]
  · refine iff_of_false (fun halts => ?_) fun beyond => beyond.2 room
    rcases bind_eq_error halts with full | ⟨_, _, further⟩
    · rw [Grid.allocate_of_addressable room] at full
      contradiction
    rcases bind_eq_error further with checked | ⟨_, _, laid⟩
    · obtain ⟨frame, _, refused⟩ := exists_of_forM_eq_error checked
      rw [Header.checkLength] at refused
      split_ifs at refused
      cases refused
    · split at laid
      · contradiction
      · cases laid
  · rw [Grid.allocate_of_not_addressable room]
    simp only [bind, Except.bind, Except.error.injEq, Error.halt.injEq, room, not_false_eq_true,
      and_true]
    exact eq_comm

/-- The axis along the columns of the time course that is asked for. -/
def CourseAxis (r : Recording) (q : Request) (axis : Axis) : Prop :=
  r.rank = 1 ∧ axis = ⟨0⟩ ∨
    2 ≤ r.rank ∧ q.selection = .single axis ∧ axis.index < r.rank ∧ r.LaysOut

theorem courseAxis_iff_of_line (rank : r.rank = 1) {axis : Axis} :
    r.CourseAxis q axis ↔ axis = ⟨0⟩ := by
  simp [CourseAxis, rank]

theorem courseAxis_iff_of_rank (rank : 2 ≤ r.rank) {axis : Axis} :
    r.CourseAxis q axis ↔ q.selection = .single axis ∧ axis.index < r.rank ∧ r.LaysOut := by
  have many : r.rank ≠ 1 := by omega
  simp only [CourseAxis, many, rank, false_and, false_or, true_and]

theorem courseLayout_halts_iff (memory : InMemory r.frames) (cause : Halt) :
    r.courseLayout q = .error (.halt cause) ↔ cause = .array ∧
      ∃ axis, r.CourseAxis q axis ∧ Overreaches r.frames (r.header.extents.getD axis.index 0) := by
  match ranked : r.rank with
  | 0 =>
    rw [courseLayout_of_scalar ranked]
    simp [CourseAxis, ranked]
  | 1 =>
    rw [courseLayout_of_line ranked, map_eq_error_iff, frameRows_halts_iff,
      room_iff_of_line ranked memory, not_not]
    simp only [courseAxis_iff_of_line ranked, exists_eq_left]
  | further + 2 =>
    have many : 2 ≤ r.rank := by omega
    rw [courseLayout_of_rank many]
    simp only [courseAxis_iff_of_rank many]
    cases selected : q.selection with
    | unprojected => simp
    | pair first second => simp
    | single axis =>
      simp only [map_eq_error_iff, onAxis_halts_iff_overreaches memory, Selection.single.injEq,
        and_assoc, exists_eq_left']

theorem mapM_markerAt_ne_halt (marked : Option Nat) (content : Content) (cause : Halt) :
    marked.mapM (r.markerAt q content) ≠ .error (.halt cause) := by
  intro halts
  cases marked with
  | none => contradiction
  | some step =>
    have placed := map_eq_error halts
    rw [markerAt] at placed
    split_ifs at placed
    cases placed

theorem timeCourse_halts_iff (memory : InMemory r.frames) (marked : Option Nat) (cause : Halt) :
    r.timeCourse q marked = .error (.halt cause) ↔ cause = .array ∧ q.style ≠ .image ∧
      ∃ axis, r.CourseAxis q axis ∧ Overreaches r.frames (r.header.extents.getD axis.index 0) := by
  by_cases asked : q.style = .image
  · refine iff_of_false (fun halts => ?_) fun halted => halted.2.1 asked
    rw [timeCourse, if_pos asked] at halts
    have same : Error.setting .imageOverTime = .halt cause := Except.error.inj halts
    contradiction
  · rw [and_iff_right asked, ← courseLayout_halts_iff memory, timeCourse, if_neg asked]
    refine ⟨fun halts => ?_, fun halts => ?_⟩
    · rcases bind_eq_error halts with laid | ⟨layout, _, further⟩
      · exact laid
      · rcases bind_eq_error further with placed | ⟨_, _, made⟩
        · exact absurd placed (mapM_markerAt_ne_halt marked layout.content cause)
        · contradiction
    · rw [halts]
      rfl

/-- Whatever grid is returned an array can hold. No snapshot halts the program; the projection of all
    frames onto an axis, and the time course, do just if they are asked for an axis along which there
    is no value in any frame and more positions, for the number of steps, than an array can hold. -/
theorem grids_are_addressable_but_empty_ones (r : Recording) (q : Request)
    (memory : InMemory r.frames) :
    (∀ step, (∀ f, r.snapshot q step = .ok f → f.content.Addressable) ∧
      ∀ cause, r.snapshot q step ≠ .error (.halt cause)) ∧
    (∀ axis, (∀ grid, Projection.onAxis q.method.rule r.header r.frames axis = .ok grid →
        grid.Addressable) ∧
      ∀ cause, Projection.onAxis q.method.rule r.header r.frames axis = .error (.halt cause) ↔
        cause = .array ∧ axis.index < r.rank ∧ r.LaysOut ∧
          Overreaches r.frames (r.header.extents.getD axis.index 0)) ∧
    ∀ marked, (∀ f, r.timeCourse q marked = .ok f → f.content.Addressable) ∧
      ∀ cause, r.timeCourse q marked = .error (.halt cause) ↔
        cause = .array ∧ q.style ≠ .image ∧ ∃ axis, r.CourseAxis q axis ∧
          Overreaches r.frames (r.header.extents.getD axis.index 0) :=
  ⟨fun step => ⟨fun _ => addressable_of_snapshotIn, snapshotIn_ne_halt .snapshot step⟩,
    fun axis => ⟨fun _ done => (Projection.projected_of_onAxis done).addressable,
      onAxis_halts_iff_overreaches memory q.method.rule axis⟩,
    fun marked => ⟨fun _ => addressable_of_timeCourse, timeCourse_halts_iff memory marked⟩⟩

theorem boxes_are_addressable :
    (∃ f, boxes.snapshot { secondAxis with selection := .pair ⟨0⟩ ⟨2⟩ } 1 = .ok f ∧
      f.rowAxis = some ⟨2⟩ ∧ f.content.Addressable) ∧
    (∃ grid, Projection.onAxis Aggregation.sum.rule boxes.header boxes.frames ⟨1⟩ = .ok grid ∧
      grid.values = [18, 26, 34, 34, 26, 18] ∧ grid.Addressable) ∧
    (∃ f, boxes.timeCourse secondAxis (some 1) = .ok f ∧ f.columnAxis = some ⟨1⟩ ∧
      f.content.Addressable) ∧
    Projection.onAxis firstAxis.method.rule hollow.header hollow.frames ⟨0⟩ =
      .error (.halt .array) ∧
    hollow.timeCourse firstAxis (some 1) = .error (.halt .array) := by
  have memory : InMemory boxes.frames := ⟨by decide, by decide⟩
  have empty : InMemory hollow.frames := ⟨by decide, by decide⟩
  have laid : hollow.LaysOut := fun frame member =>
    ⟨_, hollow.header.tensor_of_fit frame (by decide)
      ((by decide : ∀ frame ∈ hollow.frames, frame.length = hollow.header.extents.prod) frame member)⟩
  have overreaches : Overreaches hollow.frames (hollow.header.extents.getD 0 0) := ⟨rfl, by decide⟩
  obtain ⟨_, axes, courses⟩ := grids_are_addressable_but_empty_ones hollow firstAxis empty
  refine ⟨?_, ?_, ?_, ?_, ?_⟩
  · have rows : (boxes.snapshot { secondAxis with selection := .pair ⟨0⟩ ⟨2⟩ } 1).map (·.rowAxis) =
        .ok (some ⟨2⟩) := by
      decide +kernel
    obtain ⟨f, done, rows⟩ := map_eq_ok rows
    exact ⟨f, done, rows, ((grids_are_addressable_but_empty_ones boxes _ memory).1 1).1 f done⟩
  · have values : (Projection.onAxis Aggregation.sum.rule boxes.header boxes.frames ⟨1⟩).map
        (·.values) = .ok [18, 26, 34, 34, 26, 18] := by
      decide +kernel
    obtain ⟨grid, done, values⟩ := map_eq_ok values
    exact ⟨grid, done, values,
      ((grids_are_addressable_but_empty_ones boxes secondAxis memory).2.1 ⟨1⟩).1 grid done⟩
  · have columns : (boxes.timeCourse secondAxis (some 1)).map (·.columnAxis) = .ok (some ⟨1⟩) := by
      decide +kernel
    obtain ⟨f, done, columns⟩ := map_eq_ok columns
    exact ⟨f, done, columns,
      ((grids_are_addressable_but_empty_ones boxes secondAxis memory).2.2 _).1 f done⟩
  · exact ((axes ⟨0⟩).2 .array).mpr ⟨rfl, by decide, laid, overreaches⟩
  · exact ((courses (some 1)).2 .array).mpr
      ⟨rfl, by decide, ⟨0⟩, .inr ⟨by decide, rfl, by decide, laid⟩, overreaches⟩

def stepless : Recording where
  header := ⟨"Mat", "CV_64F", [9223372036854775808]⟩
  times := []
  frames := []
  times_length := rfl
  frames_length := nofun

/-- The header is accepted and so is the recording, from its parts and as a text; but its projection
    and its time course halt the program. -/
theorem stepless_halts :
    Header.ofFields 1 ["Mat", "CV_64F", "9223372036854775808"] = .ok stepless.header ∧
    ofParts stepless.header [] [] = .ok stepless ∧
    (read (Text.Utf8.encode "Mat,CV_64F,9223372036854775808\n".toList)).map
      (fun r => (r.header, r.times, r.frames)) = .ok (stepless.header, [], []) ∧
    Projection.onAxis Aggregation.average.rule stepless.header stepless.frames ⟨0⟩ =
      .error (.halt .array) ∧
    stepless.timeCourse {} none = .error (.halt .array) :=
  ⟨by decide +kernel, rfl, by decide +kernel, rfl, rfl⟩

end Recording
end FieldPlot
