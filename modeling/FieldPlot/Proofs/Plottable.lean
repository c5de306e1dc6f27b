import FieldPlot.Proofs.Agreement
import FieldPlot.Proofs.Capacity
import FieldPlot.Proofs.Offers

/-!
Everything on the menu can be plotted. For data with one channel and no axis of extent zero, no check
of the planners fires for a selection that is offered: a snapshot fails only where nothing is
projected and there are more than two axes, a time course only where not just one of several axes
is kept. The grids that are made can be held by an array.
-/
namespace FieldPlot

/-- One channel, no axis of extent zero, and frames that memory has room for. -/
structure Header.Filled (h : Header) : Prop where
  channel : h.channels = 1
  nonzero : ∀ e ∈ h.extents, e ≠ 0
  short : h.frameLength < 2 ^ 63

namespace Header.Filled

variable {h : Header} (filled : h.Filled)
include filled

theorem frameLength_eq : h.frameLength = h.extents.prod := by
  rw [frameLength_of_lt filled.short, filled.channel, Nat.one_mul]

theorem prod_le : h.extents.prod ≤ Word.arrayLimit := by
  rw [← filled.frameLength_eq]
  exact Nat.le_of_lt_succ filled.short

theorem prod_ne_zero : h.extents.prod ≠ 0 :=
  List.prod_ne_zero fun zero => filled.nonzero 0 zero rfl

theorem addressable : Word.Addressable h.arrayShape :=
  h.addressable_of_nonzero filled.nonzero filled.prod_le

end Header.Filled

namespace Recording

variable {r : Recording} {q : Request}

theorem frames_fit (filled : r.header.Filled) :
    ∀ frame ∈ r.frames, frame.length = r.header.extents.prod := fun frame member =>
  (r.frames_length frame member).trans filled.frameLength_eq

theorem plainGrid_of_fit {h : Header} {frame : List Float}
    (addressable : Word.Addressable h.arrayShape) (fits : frame.length = h.extents.prod) :
    ∃ grid, plainGrid h frame = .ok grid := by
  rw [plainGrid, h.tensor_of_fit frame addressable fits]
  exact ⟨_, rfl⟩

theorem room_of_filled (filled : r.header.Filled) (memory : InMemory r.frames) {axis : Nat}
    (declared : axis < r.rank) :
    Word.Addressable [r.frames.length, r.header.extents.getD axis 0] :=
  Header.room_of_memory filled.prod_ne_zero filled.prod_le declared (frames_fit filled) memory

theorem frameRows_of_fit {h : Header} {frames : List (List Float)}
    (counted : h.elementCount = h.extents.prod) (rank : h.rank = 1)
    (fits : ∀ frame ∈ frames, frame.length = h.extents.prod)
    (room : Word.Addressable [frames.length, h.extents.getD 0 0]) :
    ∃ grid, frameRows h frames = .ok grid := by
  have checked : frames.forM (fun frame => h.checkLength frame.length) = .ok () := by
    refine forM_of_ok fun frame member => if_pos ?_
    rw [counted, fits frame member]
  have aligned : ∀ frame ∈ frames, frame.length = h.extents.getD 0 0 := by
    obtain ⟨extent, shape⟩ := List.length_eq_one_iff.mp rank
    simpa [shape] using fits
  rw [frameRows, Grid.allocate_of_addressable room, checked, Grid.ofRows?, dif_pos aligned]
  exact ⟨_, rfl⟩

theorem exists_snapshotLayout {step : Nat} {frame : List Float} (filled : r.header.Filled)
    (found : r.frames[step]? = some frame)
    (offer : q.selection = .unprojected ∨ q.selection ∈ Selection.candidates r.rank)
    (shown : ¬ (q.selection = .unprojected ∧ 3 ≤ r.rank)) :
    ∃ layout, r.snapshotLayout q step frame = .ok layout := by
  have fits := frames_fit filled frame (List.mem_of_getElem? found)
  by_cases few : r.rank ≤ 1
  · obtain ranked | ranked : r.rank = 0 ∨ r.rank = 1 := by omega
    · exact ⟨_, snapshotLayout_of_scalar ranked step frame⟩
    · exact ⟨_, snapshotLayout_of_line ranked step frame⟩
  · have many : 2 ≤ r.rank := by omega
    rw [snapshotLayout_of_rank many]
    rcases offer with selected | offer
    · obtain ⟨grid, laid⟩ := plainGrid_of_fit filled.addressable fits
      have two : r.rank = 2 := by
        have bound : ¬ 3 ≤ r.rank := fun beyond => shown ⟨selected, beyond⟩
        omega
      simp only [selected, if_pos two, laid]
      exact ⟨_, rfl⟩
    · rcases Selection.mem_candidates.mp offer with
        ⟨axis, selected, declared⟩ | ⟨first, second, selected, less, declared⟩
      · obtain ⟨grid, projected, _⟩ := Projection.onAxis_of_fit q.method.rule r.header [frame]
          filled.addressable declared
          (r.header.addressable_of_axis filled.addressable declared)
          (List.forall_mem_singleton.mpr fits)
        simp only [selected, projected]
        exact ⟨_, rfl⟩
      · have projected := Projection.onPlane_of_fit q.method.rule r.header r.frames step
          filled.addressable less declared (.inr ⟨rfl, rfl⟩) found fits
        simp only [selected, projected]
        exact ⟨_, rfl⟩

theorem exists_courseLayout (filled : r.header.Filled) (memory : InMemory r.frames)
    (offer : r.rank ≤ 1 ∨ ∃ axis, q.selection = .single axis ∧ axis.index < r.rank) :
    ∃ layout, r.courseLayout q = .ok layout := by
  by_cases few : r.rank ≤ 1
  · obtain ranked | ranked : r.rank = 0 ∨ r.rank = 1 := by omega
    · exact ⟨_, courseLayout_of_scalar ranked⟩
    · obtain ⟨grid, laid⟩ := frameRows_of_fit
        (r.header.elementCount_of_addressable filled.addressable) ranked (frames_fit filled)
        (room_of_filled filled memory (by omega))
      rw [courseLayout_of_line ranked, laid]
      exact ⟨_, rfl⟩
  · obtain ⟨axis, selected, declared⟩ := offer.resolve_left few
    obtain ⟨grid, projected, _⟩ := Projection.onAxis_of_fit q.method.rule r.header r.frames
      filled.addressable declared (room_of_filled filled memory declared) (frames_fit filled)
    rw [courseLayout_of_rank (by omega)]
    simp only [selected, projected]
    exact ⟨_, rfl⟩

theorem exists_snapshot {step : Nat} (filled : r.header.Filled) (plotted : q.style ≠ .image)
    (inRange : step < r.steps)
    (offer : q.selection = .unprojected ∨ q.selection ∈ Selection.candidates r.rank)
    (shown : ¬ (q.selection = .unprojected ∧ 3 ≤ r.rank)) :
    ∃ f, r.snapshot q step = .ok f ∧ f.content.Addressable := by
  have found : r.frames[step]? = some r.frames[step] := List.getElem?_eq_getElem inRange
  obtain ⟨layout, laid⟩ := exists_snapshotLayout filled found offer shown
  have done : r.snapshot q step = .ok (q.figure .snapshot (some step) layout) := by
    rw [snapshot, snapshotIn_of_plotted .snapshot plotted found, laid]
    rfl
  exact ⟨_, done, addressable_of_snapshotIn done⟩

theorem exists_timeCourse (filled : r.header.Filled) (memory : InMemory r.frames)
    (plotted : q.style ≠ .image)
    (offer : r.rank ≤ 1 ∨ ∃ axis, q.selection = .single axis ∧ axis.index < r.rank) :
    ∃ f, r.timeCourse q none = .ok f ∧ f.content.Addressable := by
  obtain ⟨layout, laid⟩ := exists_courseLayout filled memory offer
  have done : r.timeCourse q none = .ok (q.figure .timeCourse none layout) := by
    rw [timeCourse_of_plotted plotted, laid]
    rfl
  exact ⟨_, done, addressable_of_timeCourse done⟩

theorem snapshot_of_unprojected {step : Nat} (plotted : q.style ≠ .image)
    (selected : q.selection = .unprojected) (many : 3 ≤ r.rank) (inRange : step < r.steps) :
    r.snapshot q step = .error (.projectionRequired r.rank) := by
  have found : r.frames[step]? = some r.frames[step] := List.getElem?_eq_getElem inRange
  have beyond : r.rank ≠ 2 := by omega
  rw [snapshot, snapshotIn_of_plotted .snapshot plotted found, snapshotLayout_of_rank (by omega)]
  simp only [selected, if_neg beyond]
  rfl

theorem timeCourse_of_pair {first second : Axis} (plotted : q.style ≠ .image)
    (selected : q.selection = .pair first second) (many : 2 ≤ r.rank) :
    r.timeCourse q none = .error (.projection .planeOverTime) := by
  rw [timeCourse_of_plotted plotted, courseLayout_of_rank many]
  simp only [selected]
  rfl

theorem timeCourse_of_unprojected (plotted : q.style ≠ .image)
    (selected : q.selection = .unprojected) (many : 2 ≤ r.rank) :
    r.timeCourse q none = .error (.projectionRequired r.rank) := by
  rw [timeCourse_of_plotted plotted, courseLayout_of_rank many]
  simp only [selected]
  rfl

/-- Whatever is offered for filled data can be plotted. A snapshot is refused only if nothing is
    projected and there are more than two axes; a time course of frames in memory just if there are
    several axes and not exactly one of them is kept. -/
theorem offered_selections_can_be_plotted (r : Recording) (q : Request) (s : Selection)
    (filled : r.header.Filled) (plotted : q.style ≠ .image)
    (offer : s ∈ Selection.offered r.rank ((Selection.candidates r.rank).map Selection.text)) :
    (∀ step < r.steps,
      (s = .unprojected ∧ 3 ≤ r.rank →
        r.snapshot { q with selection := s } step = .error (.projectionRequired r.rank)) ∧
      (¬ (s = .unprojected ∧ 3 ≤ r.rank) →
        ∃ f, r.snapshot { q with selection := s } step = .ok f ∧ f.content.Addressable)) ∧
    (InMemory r.frames → (r.rank ≤ 1 ∨ ∃ axis, s = .single axis) →
      ∃ f, r.timeCourse { q with selection := s } none = .ok f ∧ f.content.Addressable) ∧
    (2 ≤ r.rank →
      ((∃ first second, s = .pair first second) →
        r.timeCourse { q with selection := s } none = .error (.projection .planeOverTime)) ∧
      (s = .unprojected →
        r.timeCourse { q with selection := s } none = .error (.projectionRequired r.rank))) := by
  have kinds := Selection.mem_candidates_of_offered offer
  have charted : { q with selection := s }.style ≠ .image := plotted
  refine ⟨fun step inRange => ⟨fun required => ?_, fun shown => ?_⟩,
    fun memory kept => ?_, fun many => ⟨fun plane => ?_, fun recorded => ?_⟩⟩
  · exact snapshot_of_unprojected charted required.1 required.2 inRange
  · exact exists_snapshot filled charted inRange (kinds.imp id And.right) shown
  · refine exists_timeCourse filled memory charted
      (kept.imp id fun ⟨axis, selected⟩ => ⟨axis, selected, ?_⟩)
    subst selected
    have within := (kinds.resolve_left nofun).1
    exact within axis (List.mem_singleton_self axis)
  · obtain ⟨first, second, selected⟩ := plane
    exact timeCourse_of_pair charted selected many
  · exact timeCourse_of_unprojected charted recorded many

theorem boxes_can_be_plotted :
    (∃ f, boxes.snapshot { secondAxis with selection := .pair ⟨0⟩ ⟨2⟩ } 1 = .ok f ∧
      f.content.Addressable) ∧
    boxes.timeCourse { secondAxis with selection := .pair ⟨0⟩ ⟨2⟩ } none =
      .error (.projection .planeOverTime) ∧
    boxes.snapshot { secondAxis with selection := .unprojected } 1 = .error (.projectionRequired 3) ∧
    boxes.timeCourse { secondAxis with selection := .unprojected } none =
      .error (.projectionRequired 3) ∧
    ∃ f, boxes.timeCourse { secondAxis with selection := .single ⟨2⟩ } none = .ok f ∧
      f.content.Addressable := by
  have filled : boxes.header.Filled := ⟨by decide, by decide, by decide⟩
  have memory : InMemory boxes.frames := ⟨by decide, by decide⟩
  have offered : ∀ s ∈ [.unprojected, .single ⟨2⟩, .pair ⟨0⟩ ⟨2⟩],
      s ∈ Selection.offered boxes.rank ((Selection.candidates boxes.rank).map Selection.text) := by
    decide +kernel
  have several : 2 ≤ boxes.rank := by decide
  obtain ⟨shots, _, courses⟩ := offered_selections_can_be_plotted boxes secondAxis
    (.pair ⟨0⟩ ⟨2⟩) filled (by decide) (offered _ (by simp))
  obtain ⟨plainShots, _, plainCourses⟩ := offered_selections_can_be_plotted boxes secondAxis
    .unprojected filled (by decide) (offered _ (by simp))
  obtain ⟨_, kept, _⟩ := offered_selections_can_be_plotted boxes secondAxis
    (.single ⟨2⟩) filled (by decide) (offered _ (by simp))
  exact ⟨(shots 1 (by decide)).2 (by decide), (courses several).1 ⟨_, _, rfl⟩,
    (plainShots 1 (by decide)).1 (by decide), (plainCourses several).2 rfl,
    kept memory (.inr ⟨_, rfl⟩)⟩

end Recording
end FieldPlot
