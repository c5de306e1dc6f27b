import FieldPlot.Proofs.Layouts

/-!
Why snapshots are refused. A step that the recording does not have is the first reason; any other is
about the data or what is asked of it. The program never halts on a snapshot, since the array of a
frame has room for all that is made of it.
-/
namespace FieldPlot

theorem Image.ofData_of_decode {h : Header} {frame : List Float} {cause : Error}
    (fails : Image.decode h frame = .error cause) : cause.OfData := by
  rw [Image.decode] at fails
  split at fails
  split at fails
  · obtain rfl := Except.error.inj fails
    trivial
  · split_ifs at fails
    · obtain rfl := Except.error.inj fails
      trivial
    · obtain rfl := Except.error.inj fails
      trivial

theorem Projection.ofData_of_onAxis {rule : LaneRule Float} {h : Header} {frame : List Float}
    {axis : Axis} {cause : Error} (fails : onAxis rule h [frame] axis = .error cause) :
    cause.OfData := by
  rcases onAxis_rows_or_cause rule h axis frame.length with
    ⟨declared, addressable, _, row, projected⟩ | ⟨other, ofData, refused⟩
  · obtain ⟨grid, done, _⟩ := (projected [frame] (List.forall_mem_singleton.mpr rfl)).1
      (h.addressable_of_axis addressable declared)
    rw [done] at fails
    contradiction
  · rw [refused [frame] (List.cons_ne_nil _ _) (List.forall_mem_singleton.mpr rfl)] at fails
    obtain rfl := Except.error.inj fails
    exact ofData

theorem Projection.ofData_of_onPlane {rule : LaneRule Float} {h : Header}
    {frames : List (List Float)} {step : Nat} {a b : Axis} {cause : Error}
    (inRange : step < frames.length) (fails : onPlane rule h frames step a b = .error cause) :
    cause.OfData := by
  cases fault : planeFault? h frames step a b with
  | none =>
    obtain ⟨_, done, _⟩ := onPlane_cells rule h (suits_of_no_fault h fault)
    rw [done] at fails
    contradiction
  | some other =>
    rw [onPlane_of_fault rule h fault] at fails
    obtain rfl := Except.error.inj fails
    obtain ⟨⟨holds, _⟩, found, rfl⟩ := Option.map_eq_some_iff.mp fault
    have raised : holds = true := List.find?_some found
    have member := List.mem_of_find?_eq_some found
    simp only [planeFaults, List.mem_cons, Prod.mk.injEq, List.not_mem_nil, or_false] at member
    rcases member with ⟨_, rfl⟩ | ⟨_, rfl⟩ | ⟨_, rfl⟩ | ⟨_, rfl⟩ | ⟨late, rfl⟩ | ⟨_, rfl⟩ | ⟨_, rfl⟩
    case inr.inr.inr.inr.inl =>
      have := of_decide_eq_true (late ▸ raised)
      omega
    all_goals trivial

namespace Recording

variable {r : Recording} {q : Request}

theorem ofData_of_plainGrid {h : Header} {frame : List Float} {cause : Error}
    (fails : plainGrid h frame = .error cause) : cause.OfData := by
  rw [plainGrid] at fails
  rcases bind_eq_error fails with array | ⟨_, _, done⟩
  · exact Header.ofData_of_tensor array
  · contradiction

theorem ofData_of_snapshotLayout {step : Nat} {frame : List Float} {cause : Error}
    (inRange : step < r.steps) (fails : r.snapshotLayout q step frame = .error cause) :
    cause.OfData := by
  match ranked : r.rank with
  | 0 =>
    rw [snapshotLayout, ranked] at fails
    contradiction
  | 1 =>
    rw [snapshotLayout, ranked] at fails
    contradiction
  | further + 2 =>
    rw [snapshotLayout_of_rank (by omega)] at fails
    cases selected : q.selection with
    | unprojected =>
      simp only [selected] at fails
      split at fails
      · exact ofData_of_plainGrid (map_eq_error fails)
      · obtain rfl := Except.error.inj fails
        trivial
    | single axis =>
      simp only [selected] at fails
      exact Projection.ofData_of_onAxis (map_eq_error fails)
    | pair first second =>
      simp only [selected] at fails
      exact Projection.ofData_of_onPlane inRange (map_eq_error fails)

theorem snapshotIn_of_image (mode : Mode) {step : Nat} {frame : List Float}
    (asked : q.style = .image) (found : r.frames[step]? = some frame) :
    r.snapshotIn mode q step = (Image.decode r.header frame).map fun picture =>
      q.figure mode (some step) { content := .image picture } := by
  rw [snapshotIn, frame_of_found found]
  simp only [bind, Except.bind, asked, if_true]
  cases Image.decode r.header frame with
  | error cause => rfl
  | ok picture => rfl

/-- A snapshot is refused for its step just if the recording has no such step. -/
theorem late_or_ofData {mode : Mode} {step : Nat} {cause : Error}
    (fails : r.snapshotIn mode q step = .error cause) :
    r.steps ≤ step ∧ cause = .stepOutOfRange step r.steps ∨ step < r.steps ∧ cause.OfData := by
  cases found : r.frames[step]? with
  | none =>
    have late := List.getElem?_eq_none_iff.mp found
    rw [snapshotIn_of_late mode late] at fails
    exact .inl ⟨late, (Except.error.inj fails).symm⟩
  | some frame =>
    have inRange : step < r.steps := (List.getElem?_eq_some_iff.mp found).1
    refine .inr ⟨inRange, ?_⟩
    by_cases asked : q.style = .image
    · rw [snapshotIn_of_image mode asked found] at fails
      exact Image.ofData_of_decode (map_eq_error fails)
    · rw [snapshotIn_of_plotted mode asked found] at fails
      exact ofData_of_snapshotLayout inRange (map_eq_error fails)

theorem step_of_outOfRange {mode : Mode} {step reported steps : Nat}
    (fails : r.snapshotIn mode q step = .error (.stepOutOfRange reported steps)) :
    reported = step ∧ r.steps ≤ step ∧ steps = r.steps := by
  rcases late_or_ofData fails with ⟨late, same⟩ | ⟨_, ofData⟩
  · obtain ⟨rfl, rfl⟩ := Error.stepOutOfRange.inj same
    exact ⟨rfl, late, rfl⟩
  · exact ofData.elim

theorem snapshotIn_ne_halt (mode : Mode) (step : Nat) (cause : Halt) :
    r.snapshotIn mode q step ≠ .error (.halt cause) := by
  intro halts
  rcases late_or_ofData halts with ⟨_, other⟩ | ⟨_, ofData⟩
  · contradiction
  · exact ofData

end Recording
end FieldPlot
