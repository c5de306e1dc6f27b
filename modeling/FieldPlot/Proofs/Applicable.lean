import FieldPlot.Proofs.Offers

/-!
Whether what is offered can be projected. An offered axis is an axis of the data, so frames are
projected onto it. Two different axes that are offered together are axes of the data as well. The same
axis named twice is offered like any other pair, but no plane has one axis only, and so it is refused.
-/
namespace FieldPlot.Projection

open Selection (offered mem_offered within_single within_pair)

/-- Frames of this header in memory that an array can hold, each axis with a position at least. -/
structure Laid {α : Type} (h : Header) (frames : List (List α)) : Prop where
  memory : InMemory frames
  nonzero : ∀ e ∈ h.extents, e ≠ 0
  short : h.extents.prod < 2 ^ 63
  fits : ∀ frame ∈ frames, frame.length = h.extents.prod

section Projected

variable {α : Type} [Inhabited α] {rule : LaneRule α} {h : Header} {frames : List (List α)}
  {texts : List String} {a b : Axis}

omit [Inhabited α] in
theorem Laid.addressable (laid : Laid h frames) : Word.Addressable h.arrayShape :=
  h.addressable_of_nonzero laid.nonzero (Nat.le_of_lt_succ laid.short)

omit [Inhabited α] in
theorem Laid.room (laid : Laid h frames) {axis : Nat} (declared : axis < h.rank) :
    Word.Addressable [frames.length, h.extents.getD axis 0] :=
  Header.room_of_memory (List.prod_ne_zero fun zero => laid.nonzero 0 zero rfl)
    (Nat.le_of_lt_succ laid.short) declared laid.fits laid.memory

omit [Inhabited α] in
theorem number_le_of_single (offer : .single a ∈ offered h.rank texts) : a.number ≤ h.rank := by
  rcases mem_offered.mp offer with recorded | ⟨_, within, _⟩
  · contradiction
  · exact within_single.mp within

theorem pair_mem_offered {rank : Nat} : .pair a b ∈ offered rank texts ↔
    (a.number ≤ rank ∧ b.number ≤ rank) ∧ ∃ t ∈ texts, Selection.read t.toList = .ok (.pair a b) := by
  rw [mem_offered, within_pair]
  simp

theorem onAxis_of_offered (laid : Laid h frames) (offer : .single a ∈ offered h.rank texts) :
    ∃ grid, onAxis rule h frames a = .ok grid ∧
      grid.Meshed frames.length (h.extents.getD a.index 0) := by
  have declared : a.index < h.rank := number_le_of_single offer
  obtain ⟨grid, done, meshed, _⟩ := onAxis_cells rule h frames laid.addressable declared
    (laid.room declared) laid.fits
  exact ⟨grid, done, meshed⟩

theorem onPlane_of_offered (laid : Laid h frames) {frame : List α} (found : frames[0]? = some frame)
    (offer : .pair a b ∈ offered h.rank texts) (apart : a ≠ b) :
    ∃ plane, onPlane rule h frames 0 a b = .ok plane := by
  obtain ⟨⟨first, second⟩, _⟩ := pair_mem_offered.mp offer
  have suits : Suits h frames 0 a b frame :=
    ⟨first, second, apart, found, laid.fits frame (List.mem_of_getElem? found), laid.addressable⟩
  obtain ⟨plane, done, _⟩ := onPlane_cells rule h suits
  exact ⟨plane, done⟩

theorem onPlane_of_repeated (rule : LaneRule α) (h : Header) (frames : List (List α)) (step : Nat)
    (a : Axis) : onPlane rule h frames step a a =
      .error (.projection (if h.rank < 2 then .tooFewAxes h.rank else .repeatedAxis a)) := by
  unfold onPlane
  by_cases few : h.rank < 2
  · simp only [if_pos few]
    rfl
  · simp only [if_neg few]
    rfl

end Projected

/-- Whatever single axis is offered for frames of this header, they are projected onto it; and of the
    pairs that are offered just those of two different axes can be projected onto. A pair of the same
    axis is offered if a text names it and the data has this axis. -/
theorem offered_selections_apply (m : Aggregation) (h : Header) (frames : List (List Float))
    (texts : List String) (laid : Laid h frames) (some : frames ≠ []) :
    (∀ a, .single a ∈ offered h.rank texts → ∃ grid, onAxis m.rule h frames a = .ok grid ∧
      grid.Meshed frames.length (h.extents.getD a.index 0)) ∧
    (∀ a b, .pair a b ∈ offered h.rank texts →
      ((∃ plane, onPlane m.rule h frames 0 a b = .ok plane) ↔ a ≠ b) ∧
      (a = b → onPlane m.rule h frames 0 a b =
        .error (.projection (if h.rank < 2 then .tooFewAxes h.rank else .repeatedAxis a)))) ∧
    ∀ a, .pair a a ∈ offered h.rank texts ↔
      a.number ≤ h.rank ∧ ∃ t ∈ texts, Selection.read t.toList = .ok (.pair a a) := by
  obtain ⟨frame, others, rfl⟩ := List.exists_cons_of_ne_nil some
  refine ⟨fun a offer => onAxis_of_offered laid offer, fun a b offer => ⟨⟨?_, ?_⟩, ?_⟩, fun a => ?_⟩
  · rintro ⟨plane, done⟩ same
    subst same
    rw [onPlane_of_repeated] at done
    contradiction
  · exact onPlane_of_offered laid rfl offer
  · intro same
    subst same
    exact onPlane_of_repeated m.rule h _ 0 a
  · rw [pair_mem_offered, and_self]

theorem offered_of_box_apply :
    (∃ grid, onAxis Aggregation.maximum.rule (.ofExtents [1, 2, 1]) [[1, 2], [3, 4]] ⟨1⟩ = .ok grid ∧
      grid.Meshed 2 2) ∧
    (∃ plane, onPlane Aggregation.maximum.rule (.ofExtents [1, 2, 1]) [[1, 2], [3, 4]] 0 ⟨2⟩ ⟨1⟩ =
      .ok plane) ∧
    onPlane Aggregation.maximum.rule (.ofExtents [1, 2, 1]) [[1, 2], [3, 4]] 0 ⟨2⟩ ⟨2⟩ =
      .error (.projection (.repeatedAxis ⟨2⟩)) := by
  have laid : Laid (.ofExtents [1, 2, 1]) [[1, 2], [(3 : Float), 4]] :=
    ⟨⟨by decide, by decide⟩, by decide, by decide, by decide⟩
  have offered : ∀ s ∈ [.single ⟨1⟩, .pair ⟨2⟩ ⟨1⟩, .pair ⟨2⟩ ⟨2⟩],
      s ∈ Selection.offered 3 ["x_3,x_3", "x_9", " x_2", "x_3 , x_+2"] := by
    decide +kernel
  obtain ⟨singles, pairs, _⟩ := offered_selections_apply .maximum _ _
    ["x_3,x_3", "x_9", " x_2", "x_3 , x_+2"] laid (List.cons_ne_nil _ _)
  exact ⟨singles ⟨1⟩ (offered _ (by simp)), (pairs ⟨2⟩ ⟨1⟩ (offered _ (by simp))).1.mpr (by decide),
    (pairs ⟨2⟩ ⟨2⟩ (offered _ (by simp))).2 rfl⟩

/-- An axis that is named twice is offered as a pair, although no data can be projected onto it. -/
theorem repeated_axis_is_offered :
    Laid (.ofExtents [2, 2]) [[(1 : Float), 2, 3, 4]] ∧
    .pair ⟨0⟩ ⟨0⟩ ∈ offered (Header.ofExtents [2, 2]).rank ["x_1, x_1"] ∧
    onPlane Aggregation.average.rule (.ofExtents [2, 2]) [[1, 2, 3, 4]] 0 ⟨0⟩ ⟨0⟩ =
      .error (.projection (.repeatedAxis ⟨0⟩)) :=
  ⟨⟨⟨by decide, by decide⟩, by decide, by decide, by decide⟩, by decide +kernel, rfl⟩

end FieldPlot.Projection
