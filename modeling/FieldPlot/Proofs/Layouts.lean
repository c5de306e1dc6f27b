import FieldPlot.Figure.Snapshot
import FieldPlot.Figure.TimeCourse
import FieldPlot.Proofs.Projectable

/-!
What figures are made of. A figure is made from a layout, that is, data with its axes; `ShowsStep`
and `ShowsCourse` list the layouts of snapshots and of time courses, each with all that was asked
and found. The figures of a sequence are snapshots of its steps.
-/
namespace FieldPlot.Recording

variable {r : Recording} {q : Request}

inductive ShowsStep (r : Recording) (q : Request) (step : Nat) (frame : List Float) :
    Layout → Prop where
  | image {picture : Image} (asked : q.style = .image)
      (decoded : Image.decode r.header frame = .ok picture) :
      ShowsStep r q step frame { content := .image picture }
  | scalar (plotted : q.style ≠ .image) (rank : r.rank = 0) :
      ShowsStep r q step frame { content := .line frame }
  | line (plotted : q.style ≠ .image) (rank : r.rank = 1) :
      ShowsStep r q step frame { content := .line frame, columnAxis := some ⟨0⟩ }
  | plane {first second : Axis} {plane : Plane Float} (plotted : q.style ≠ .image)
      (rank : 2 ≤ r.rank) (selected : q.selection = .pair first second)
      (projected :
        Projection.onPlane q.method.rule r.header r.frames step first second = .ok plane) :
      ShowsStep r q step frame ⟨.grid plane.grid, some plane.rowAxis, some plane.columnAxis⟩
  | profile {axis : Axis} {grid : Grid Float} (plotted : q.style ≠ .image) (rank : 2 ≤ r.rank)
      (selected : q.selection = .single axis)
      (projected : Projection.onAxis q.method.rule r.header [frame] axis = .ok grid) :
      ShowsStep r q step frame { content := .line grid.values, columnAxis := some axis }
  | plain {grid : Grid Float} (plotted : q.style ≠ .image) (rank : r.rank = 2)
      (selected : q.selection = .unprojected) (laid : plainGrid r.header frame = .ok grid) :
      ShowsStep r q step frame ⟨.grid grid, some ⟨1⟩, some ⟨0⟩⟩

theorem frame_of_found {step : Nat} {frame : List Float} (found : r.frames[step]? = some frame) :
    r.frame step = .ok frame := by
  rw [Recording.frame, found]

theorem frame_of_late {step : Nat} (late : r.steps ≤ step) :
    r.frame step = .error (.stepOutOfRange step r.steps) := by
  rw [Recording.frame, List.getElem?_eq_none late]

theorem snapshotIn_of_late (mode : Mode) {step : Nat} (late : r.steps ≤ step) :
    r.snapshotIn mode q step = .error (.stepOutOfRange step r.steps) := by
  rw [snapshotIn, frame_of_late late]
  rfl

theorem snapshotIn_of_plotted (mode : Mode) {step : Nat} {frame : List Float}
    (plotted : q.style ≠ .image) (found : r.frames[step]? = some frame) :
    r.snapshotIn mode q step =
      (r.snapshotLayout q step frame).map (q.figure mode (some step)) := by
  rw [snapshotIn, frame_of_found found]
  simp only [bind, Except.bind, plotted, if_false]
  cases r.snapshotLayout q step frame with
  | error cause => rfl
  | ok layout => rfl

theorem snapshotLayout_of_scalar (rank : r.rank = 0) (step : Nat) (frame : List Float) :
    r.snapshotLayout q step frame = .ok { content := .line frame } := by
  rw [snapshotLayout, rank]
  rfl

theorem snapshotLayout_of_line (rank : r.rank = 1) (step : Nat) (frame : List Float) :
    r.snapshotLayout q step frame = .ok { content := .line frame, columnAxis := some ⟨0⟩ } := by
  rw [snapshotLayout, rank]
  rfl

theorem snapshotLayout_of_rank (rank : 2 ≤ r.rank) (step : Nat) (frame : List Float) :
    r.snapshotLayout q step frame =
      match q.selection with
      | .pair first second =>
        (Projection.onPlane q.method.rule r.header r.frames step first second).map fun plane =>
          ⟨.grid plane.grid, some plane.rowAxis, some plane.columnAxis⟩
      | .single axis =>
        (Projection.onAxis q.method.rule r.header [frame] axis).map fun grid =>
          { content := .line grid.values, columnAxis := some axis }
      | .unprojected =>
        if r.rank = 2 then
          (plainGrid r.header frame).map fun grid => ⟨.grid grid, some ⟨1⟩, some ⟨0⟩⟩
        else .error (.projectionRequired r.rank) := by
  obtain ⟨further, many⟩ := Nat.exists_eq_add_of_le' rank
  rw [snapshotLayout, many]
  cases q.selection with
  | unprojected =>
    cases further with
    | zero => rfl
    | succ further => rfl
  | single axis =>
    cases further with
    | zero => rfl
    | succ further => rfl
  | pair first second =>
    cases further with
    | zero => rfl
    | succ further => rfl

theorem courseLayout_of_scalar (rank : r.rank = 0) :
    r.courseLayout q = .ok { content := .line r.series } := by
  rw [courseLayout, rank]
  rfl

theorem courseLayout_of_line (rank : r.rank = 1) :
    r.courseLayout q = (frameRows r.header r.frames).map fun grid =>
      { content := .grid grid, columnAxis := some ⟨0⟩ } := by
  rw [courseLayout, rank]
  rfl

theorem courseLayout_of_rank (rank : 2 ≤ r.rank) :
    r.courseLayout q =
      match q.selection with
      | .single axis =>
        (Projection.onAxis q.method.rule r.header r.frames axis).map fun grid =>
          { content := .grid grid, columnAxis := some axis }
      | .pair _ _ => .error (.projection .planeOverTime)
      | .unprojected => .error (.projectionRequired r.rank) := by
  obtain ⟨further, many⟩ := Nat.exists_eq_add_of_le' rank
  rw [courseLayout, many]
  cases q.selection with
  | unprojected => rfl
  | single axis => rfl
  | pair first second => rfl

theorem timeCourse_of_plotted (plotted : q.style ≠ .image) :
    r.timeCourse q none = (r.courseLayout q).map (q.figure .timeCourse none) := by
  rw [timeCourse]
  simp only [bind, Except.bind, plotted, if_false]
  cases r.courseLayout q with
  | error cause => rfl
  | ok layout => rfl

theorem showsStep_of_layout {step : Nat} {frame : List Float} {layout : Layout}
    (plotted : q.style ≠ .image) (done : r.snapshotLayout q step frame = .ok layout) :
    ShowsStep r q step frame layout := by
  -- The rank comes first; the selection counts from two axes on.
  match ranked : r.rank with
  | 0 =>
    rw [snapshotLayout_of_scalar ranked] at done
    obtain rfl := Except.ok.inj done
    exact .scalar plotted ranked
  | 1 =>
    rw [snapshotLayout_of_line ranked] at done
    obtain rfl := Except.ok.inj done
    exact .line plotted ranked
  | further + 2 =>
    have many : 2 ≤ r.rank := by omega
    rw [snapshotLayout_of_rank many] at done
    cases selected : q.selection with
    | unprojected =>
      simp only [selected] at done
      split at done
      · rename_i two
        obtain ⟨grid, laid, rfl⟩ := map_eq_ok done
        exact .plain plotted two selected laid
      · contradiction
    | single axis =>
      simp only [selected] at done
      obtain ⟨grid, projected, rfl⟩ := map_eq_ok done
      exact .profile plotted many selected projected
    | pair first second =>
      simp only [selected] at done
      obtain ⟨plane, projected, rfl⟩ := map_eq_ok done
      exact .plane plotted many selected projected

/-- A snapshot is the request's figure of a layout of the frame. -/
theorem showsStep_of_snapshotIn {mode : Mode} {step : Nat} {f : Figure}
    (done : r.snapshotIn mode q step = .ok f) :
    ∃ frame layout, r.frames[step]? = some frame ∧ ShowsStep r q step frame layout ∧
      f = q.figure mode (some step) layout := by
  cases found : r.frames[step]? with
  | none =>
    rw [snapshotIn_of_late mode (List.getElem?_eq_none_iff.mp found)] at done
    contradiction
  | some frame =>
    by_cases asked : q.style = .image
    · rw [snapshotIn, frame_of_found found] at done
      obtain ⟨_, ⟨⟩, done⟩ := bind_eq_ok done
      simp only [asked, if_true] at done
      obtain ⟨layout, made, done⟩ := bind_eq_ok done
      obtain ⟨picture, decoded, rfl⟩ := map_eq_ok made
      obtain rfl := Except.ok.inj done
      exact ⟨frame, _, rfl, .image asked decoded, rfl⟩
    · rw [snapshotIn_of_plotted mode asked found] at done
      obtain ⟨layout, made, rfl⟩ := map_eq_ok done
      exact ⟨frame, layout, rfl, showsStep_of_layout asked made, rfl⟩

inductive ShowsCourse (r : Recording) (q : Request) : Layout → Prop where
  | series (rank : r.rank = 0) : ShowsCourse r q { content := .line r.series }
  | frames {grid : Grid Float} (rank : r.rank = 1)
      (laid : frameRows r.header r.frames = .ok grid) :
      ShowsCourse r q { content := .grid grid, columnAxis := some ⟨0⟩ }
  | profiles {axis : Axis} {grid : Grid Float} (rank : 2 ≤ r.rank)
      (selected : q.selection = .single axis)
      (projected : Projection.onAxis q.method.rule r.header r.frames axis = .ok grid) :
      ShowsCourse r q { content := .grid grid, columnAxis := some axis }

theorem showsCourse_of_layout {layout : Layout} (done : r.courseLayout q = .ok layout) :
    ShowsCourse r q layout := by
  match ranked : r.rank with
  | 0 =>
    rw [courseLayout_of_scalar ranked] at done
    obtain rfl := Except.ok.inj done
    exact .series ranked
  | 1 =>
    rw [courseLayout_of_line ranked] at done
    obtain ⟨grid, laid, rfl⟩ := map_eq_ok done
    exact .frames ranked laid
  | further + 2 =>
    have many : 2 ≤ r.rank := by omega
    rw [courseLayout_of_rank many] at done
    cases selected : q.selection with
    | unprojected =>
      simp only [selected] at done
      contradiction
    | single axis =>
      simp only [selected] at done
      obtain ⟨grid, projected, rfl⟩ := map_eq_ok done
      exact .profiles many selected projected
    | pair first second =>
      simp only [selected] at done
      contradiction

/-- A time course is the request's figure of a layout of all frames, and may have a marker. -/
theorem showsCourse_of_timeCourse {marked : Option Nat} {f : Figure}
    (done : r.timeCourse q marked = .ok f) :
    q.style ≠ .image ∧ ∃ layout marker, ShowsCourse r q layout ∧
      marked.mapM (r.markerAt q layout.content) = .ok marker ∧
      f = { q.figure .timeCourse none layout with marker := marker } := by
  rw [timeCourse] at done
  by_cases asked : q.style = .image
  · simp only [asked, if_true] at done
    contradiction
  · rw [if_neg asked] at done
    obtain ⟨layout, laid, done⟩ := bind_eq_ok done
    obtain ⟨marker, placed, done⟩ := bind_eq_ok done
    obtain rfl := Except.ok.inj done
    exact ⟨asked, layout, marker, showsCourse_of_layout laid, placed, rfl⟩

theorem sequenceFrom_eq_mapM (r : Recording) (q : Request) (start stride count place : Nat) :
    r.sequenceFrom q start stride count place =
      (List.range' place count).mapM (r.visit q start stride) := by
  induction count generalizing place with
  | zero => rfl
  | succ count ih =>
    rw [sequenceFrom, ih, List.range'_succ, List.mapM_cons]

theorem sequence_eq_mapM (r : Recording) (q : Request) (start stride count : Nat) :
    r.sequence q start stride count = (List.range count).mapM (r.visit q start stride) := by
  rw [sequence, sequenceFrom_eq_mapM, List.range_eq_range']

theorem snapshotIn_of_visit {start stride place : Nat} {f : Figure}
    (done : r.visit q start stride place = .ok f) :
    ∃ step, r.snapshotIn .sequence q step = .ok f := by
  obtain ⟨step, _, shot⟩ := bind_eq_ok done
  exact ⟨step, shot⟩

theorem snapshotIn_of_mem_sequence {start stride count : Nat} {figures : List Figure}
    (done : r.sequence q start stride count = .ok figures) :
    ∀ f ∈ figures, ∃ step, r.snapshotIn .sequence q step = .ok f := by
  rw [sequence_eq_mapM] at done
  have shots : List.Forall₂ (fun f place => (∃ step, r.snapshotIn .sequence q step = .ok f) ∧
      r.visit q start stride place = .ok f) figures (List.range count) :=
    (forall₂_of_mapM done).flip.imp fun f place shot => ⟨snapshotIn_of_visit shot, shot⟩
  exact ((List.forall₂_and_left _ _).mp shots).1

end FieldPlot.Recording
