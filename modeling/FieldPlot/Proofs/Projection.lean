import FieldPlot.Proofs.Elimination
import FieldPlot.Proofs.Lanes
import FieldPlot.Proofs.Outcomes
import FieldPlot.Proofs.Room

/-!
What projections compute. Every cell is the value of the frame with all declared axes collapsed but
the kept ones, from the last declared axis to the first (`Declared.project`). Requests that do not
suit the recording are refused, and of several reasons the first counts; a grid of all frames that
no array can hold halts the program.
-/
namespace FieldPlot

theorem filter_lastFirst {rank : Nat} {kept : List Nat} (ordered : kept.Pairwise (· > ·))
    (declared : ∀ j ∈ kept, j < rank) : (lastFirst rank).filter (· ∈ kept) = kept := by
  apply eq_of_descending ((lastFirst_descending rank).filter _) ordered
  intro j
  simp only [List.mem_filter, mem_lastFirst, decide_eq_true_eq, and_iff_right_iff_imp]
  exact declared j

namespace Header

variable {α : Type} [Inhabited α]

theorem tensor_of_fit (h : Header) (frame : List α) (addressable : Word.Addressable h.arrayShape)
    (fits : frame.length = h.extents.prod) :
    h.tensor frame = .ok (Tensor.ofValues h.arrayShape frame) := by
  have count : frame.length = h.elementCount := by
    rw [h.elementCount_of_addressable addressable, fits]
  simp [tensor, checkLength, count, addressable]

theorem tensor_of_misfit (h : Header) (frame : List α)
    (misfit : frame.length ≠ h.elementCount) :
    h.tensor frame = .error (.shapeMismatch h.extents h.elementCount frame.length none) := by
  simp [tensor, checkLength, misfit]
  rfl

theorem tensor_of_not_addressable (h : Header) (frame : List α)
    (count : frame.length = h.elementCount) (huge : ¬ Word.Addressable h.arrayShape) :
    h.tensor frame = .error (.projection .unaddressable) := by
  simp [tensor, checkLength, count, huge]
  rfl

theorem resolve_of_declared (h : Header) {axis : Axis} (declared : axis.index < h.rank) :
    h.resolve axis = .ok axis.index :=
  if_pos declared

theorem resolve_of_undeclared (h : Header) {axis : Axis} (undeclared : h.rank ≤ axis.index) :
    h.resolve axis = .error (.undefinedAxis axis h.rank) :=
  if_neg (Nat.not_lt.mpr undeclared)

/-- What the loop leaves of a frame: the kept axes in the order of the array. -/
theorem keep_shows (h : Header) (rule : LaneRule α) (kept : List Nat) (frame : List α)
    (distinct : kept.Nodup) (declared : ∀ j ∈ kept, j < h.rank) :
    ((Tensor.ofValues h.arrayShape frame).keep rule (kept.map h.arrayPosition)).Shows h.extents
      ((lastFirst h.rank).filter (· ∈ kept)) kept (Declared.project rule h.extents kept frame) := by
  have start : Elimination.Shows h.extents ([] ++ lastFirst h.rank) kept
      (Declared.ofFrame h.extents frame)
      ⟨Tensor.ofValues h.arrayShape frame, 0, kept.map h.arrayPosition⟩ :=
    ofFrame_shows h.extents kept frame declared
  exact Elimination.run_shows rule distinct h.rank start rfl (List.nil_subset _)

end Header

namespace Declared

variable {α : Type} [Inhabited α]

theorem project_congr (rule : LaneRule α) (extents : List Nat) {kept named : List Nat}
    (frame : List α) (same : ∀ j, j ∈ kept ↔ j ∈ named) :
    project rule extents kept frame = project rule extents named frame := by
  have all : others extents.length kept = others extents.length named := by
    simp only [others, same]
  rw [project, project, all]

theorem project_local (rule : LaneRule α) (extents kept : List Nat) (frame : List α)
    (distinct : kept.Nodup) (declared : ∀ j ∈ kept, j < extents.length) {c d : Nat → Nat}
    (agree : ∀ j ∈ kept, c j = d j) :
    project rule extents kept frame c = project rule extents kept frame d := by
  have left := (Header.ofExtents extents).keep_shows rule kept frame distinct declared
  have same : ((lastFirst extents.length).filter (· ∈ kept)).map c =
      ((lastFirst extents.length).filter (· ∈ kept)).map d :=
    List.map_congr_left fun j member => agree j (by simpa using (List.mem_filter.mp member).2)
  exact (left.cell c).symm.trans ((congrArg _ same).trans (left.cell d))

end Declared

namespace Projection

variable {α : Type} [Inhabited α] (rule : LaneRule α) (h : Header)

theorem profile_of_fit {k : Nat} (frame : List α) (addressable : Word.Addressable h.arrayShape)
    (declared : k < h.rank) (fits : frame.length = h.extents.prod) :
    profile rule h k frame = .ok ((List.range (h.extents.getD k 0)).map fun p =>
      Declared.project rule h.extents [k] frame fun _ => p) := by
  have bound : ∀ j ∈ [k], j < h.rank := by simpa using declared
  have left := h.keep_shows rule [k] frame (List.nodup_singleton k) bound
  rw [filter_lastFirst (List.pairwise_singleton _ k) bound, List.map_singleton] at left
  have line : ((Tensor.ofValues h.arrayShape frame).keep rule [h.arrayPosition k]).tensor.line? =
      some ((List.range (h.extents.getD k 0)).map fun p =>
        Declared.project rule h.extents [k] frame fun _ => p) := by
    rw [Tensor.line?, left.shape]
    exact congrArg some (List.map_congr_left fun p _ => left.cell fun _ => p)
  rw [profile, h.tensor_of_fit frame addressable fits]
  simp [line, bind, Except.bind, pure, Except.pure]

theorem profile_of_misfit {k : Nat} (frame : List α) (misfit : frame.length ≠ h.elementCount) :
    profile rule h k frame =
      .error (.shapeMismatch h.extents h.elementCount frame.length none) := by
  rw [profile, h.tensor_of_misfit frame misfit]
  rfl

theorem onAxis_of_undeclared (frames : List (List α)) {axis : Axis}
    (undeclared : h.rank ≤ axis.index) :
    onAxis rule h frames axis = .error (.undefinedAxis axis h.rank) := by
  rw [onAxis, h.resolve_of_undeclared undeclared]
  rfl

theorem layFirst_of_ok {frames : List (List α)}
    (laid : ∀ frame ∈ frames.take 1, ∃ t, h.tensor frame = .ok t) :
    ((frames.take 1).forM fun frame => discard (h.tensor frame)) = .ok () := by
  refine forM_of_ok fun frame member => ?_
  obtain ⟨t, done⟩ := laid frame member
  rw [done]
  rfl

variable {h} in
theorem laid_of_fit {frames : List (List α)} (addressable : Word.Addressable h.arrayShape)
    (fits : ∀ frame ∈ frames, frame.length = h.extents.prod) :
    ∀ frame ∈ frames.take 1, ∃ t, h.tensor frame = .ok t := fun frame member =>
  ⟨_, h.tensor_of_fit frame addressable (fits frame (List.mem_of_mem_take member))⟩

theorem onAxis_of_fit (frames : List (List α)) {axis : Axis}
    (addressable : Word.Addressable h.arrayShape) (declared : axis.index < h.rank)
    (room : Word.Addressable [frames.length, h.extents.getD axis.index 0])
    (fits : ∀ frame ∈ frames, frame.length = h.extents.prod) :
    ∃ grid, onAxis rule h frames axis = .ok grid ∧ grid.columns = h.extents.getD axis.index 0 ∧
      grid.rows = frames.map fun frame => (List.range (h.extents.getD axis.index 0)).map fun p =>
        Declared.project rule h.extents [axis.index] frame fun _ => p := by
  have first := layFirst_of_ok h (laid_of_fit addressable fits)
  have rows := mapM_of_ok (profile rule h axis.index) _ frames fun frame member =>
    profile_of_fit rule h frame addressable declared (fits frame member)
  have aligned : ∀ row ∈ frames.map fun frame =>
      (List.range (h.extents.getD axis.index 0)).map fun p =>
        Declared.project rule h.extents [axis.index] frame fun _ => p,
      row.length = h.extents.getD axis.index 0 := by
    intro row member
    obtain ⟨frame, _, same⟩ := List.mem_map.mp member
    simp [← same]
  refine ⟨⟨_, _, aligned⟩, ?_, rfl, rfl⟩
  rw [onAxis, h.resolve_of_declared declared]
  simp only [bind, Except.bind, first, Grid.allocate_of_addressable room, rows, Grid.ofRows?,
    dif_pos aligned]
  rfl

/-- Once the first frame is laid out, a grid that no array can hold halts the program. -/
theorem onAxis_of_beyond (frames : List (List α)) {axis : Axis} (declared : axis.index < h.rank)
    (laid : ∀ frame ∈ frames.take 1, ∃ t, h.tensor frame = .ok t)
    (beyond : ¬ Word.Addressable [frames.length, h.extents.getD axis.index 0]) :
    onAxis rule h frames axis = .error (.halt .array) := by
  rw [onAxis, h.resolve_of_declared declared]
  simp only [bind, Except.bind, layFirst_of_ok h laid, Grid.allocate_of_not_addressable beyond]

theorem onAxis_cells (frames : List (List α)) {axis : Axis}
    (addressable : Word.Addressable h.arrayShape) (declared : axis.index < h.rank)
    (room : Word.Addressable [frames.length, h.extents.getD axis.index 0])
    (fits : ∀ frame ∈ frames, frame.length = h.extents.prod) :
    ∃ grid, onAxis rule h frames axis = .ok grid ∧
      grid.Meshed frames.length (h.extents.getD axis.index 0) ∧
      ∀ (s : Nat) (frame : List α) (c : Nat → Nat), frames[s]? = some frame →
        c axis.index < h.extents.getD axis.index 0 →
        grid.cell? s (c axis.index) =
          some (Declared.project rule h.extents [axis.index] frame c) := by
  obtain ⟨grid, done, columns, rows⟩ := onAxis_of_fit rule h frames addressable declared room fits
  have height : grid.height = frames.length := by rw [Grid.height, rows, List.length_map]
  refine ⟨grid, done, columns ▸ height ▸ grid.meshed, ?_⟩
  intro s frame c found inside
  have bound : ∀ j ∈ [axis.index], j < h.extents.length := List.forall_mem_singleton.mpr declared
  have agree : ∀ j ∈ [axis.index], c axis.index = c j := by simp
  have cell := Declared.project_local rule h.extents [axis.index] frame
    (List.nodup_singleton _) bound agree
  have position := List.getElem?_range inside
  simp only [Grid.cell?, rows, List.getElem?_map, found, position, Option.map_some,
    Option.bind_some, cell]

theorem onAxis_of_first_misfit (before : List (List α)) (frame : List α) (after : List (List α))
    {axis : Axis} (addressable : Word.Addressable h.arrayShape) (declared : axis.index < h.rank)
    (room : Word.Addressable [(before ++ frame :: after).length, h.extents.getD axis.index 0])
    (fine : ∀ earlier ∈ before, earlier.length = h.extents.prod)
    (misfit : frame.length ≠ h.extents.prod) :
    onAxis rule h (before ++ frame :: after) axis =
      .error (.shapeMismatch h.extents h.extents.prod frame.length none) := by
  have count := h.elementCount_of_addressable addressable
  rw [onAxis, h.resolve_of_declared declared]
  cases before with
  | nil =>
    have fails := h.tensor_of_misfit frame (count ▸ misfit)
    rw [count] at fails
    simp [bind, Except.bind, discard, Functor.mapConst, Except.map, fails]
  | cons first others =>
    have laid : ∀ earlier ∈ ((first :: others) ++ frame :: after).take 1,
        ∃ t, h.tensor earlier = .ok t := by
      intro earlier member
      obtain rfl : earlier = first := by simpa using member
      exact ⟨_, h.tensor_of_fit earlier addressable (fine earlier List.mem_cons_self)⟩
    have fails := mapM_of_first_error (profile rule h axis.index) _ (first :: others) frame after _
      (fun earlier member => profile_of_fit rule h earlier addressable declared (fine earlier member))
      (profile_of_misfit rule h frame (count ▸ misfit))
    simp only [bind, Except.bind, layFirst_of_ok h laid, Grid.allocate_of_addressable room, fails,
      count]

def planeOn (extents : List Nat) (high low : Nat) (v : Declared α) : Plane α :=
  ⟨⟨high⟩, ⟨low⟩, Grid.ofFn (extents.getD high 0) (extents.getD low 0) fun r c =>
    v (crossing high r c)⟩

omit [Inhabited α] in
theorem planeOf_shows {extents : List Nat} {high low : Nat} {a b : Axis} {v : Declared α}
    {e : Elimination α} (less : low < high)
    (left : e.Shows extents [high, low] [a.index, b.index] v)
    (named : a.index = high ∧ b.index = low ∨ a.index = low ∧ b.index = high) :
    planeOf a b e = .ok (planeOn extents high low v) := by
  have values : (Grid.ofFn (extents.getD high 0) (extents.getD low 0) fun r c =>
      e.tensor.cell [r, c]) = (planeOn extents high low v).grid := by
    have cells : ∀ r c, e.tensor.cell [r, c] = v (crossing high r c) := by
      intro r c
      have cell := left.cell (crossing high r c)
      rwa [List.map_cons, List.map_singleton, crossing_self, crossing_of_ne r c less.ne] at cell
    simp only [cells, planeOn]
  have first : [high, low].idxOf high = 0 := List.idxOf_cons_self
  have second : [high, low].idxOf low = 1 := by
    rw [List.idxOf_cons_ne _ less.ne', List.idxOf_cons_self]
  obtain ⟨a⟩ := a
  obtain ⟨b⟩ := b
  rw [planeOf, left.shape, left.tracked]
  simp only [List.map_cons, List.map_nil, values]
  rcases named with ⟨rfl, rfl⟩ | ⟨rfl, rfl⟩
  · simp only [first, second, Nat.zero_lt_one, if_true]
    rfl
  · simp only [first, second, Nat.not_lt_zero, if_false]
    rfl

theorem onPlane_of_fit (frames : List (List α)) (step : Nat) {a b : Axis} {frame : List α}
    {high low : Nat} (addressable : Word.Addressable h.arrayShape) (less : low < high)
    (declared : high < h.rank)
    (named : a.index = high ∧ b.index = low ∨ a.index = low ∧ b.index = high)
    (found : frames[step]? = some frame) (fits : frame.length = h.extents.prod) :
    onPlane rule h frames step a b =
      .ok (planeOn h.extents high low (Declared.project rule h.extents [high, low] frame)) := by
  have members := mem_pair_iff named
  have apart : a ≠ b := by
    rintro rfl
    omega
  have distinct : [a.index, b.index].Nodup := by
    simp only [List.nodup_cons, List.mem_singleton, List.not_mem_nil, not_false_eq_true,
      List.nodup_nil, and_true]
    omega
  have bound : ∀ j ∈ [high, low], j < h.rank := all_pair declared (less.trans declared)
  have left := h.keep_shows rule [a.index, b.index] frame distinct fun j member =>
    bound j ((members j).mp member)
  rw [Declared.project_congr rule h.extents frame members] at left
  simp only [members] at left
  rw [filter_lastFirst (List.pairwise_pair.mpr less) bound] at left
  have firstDeclared : a.index < h.rank := by omega
  have secondDeclared : b.index < h.rank := by omega
  have two : ¬ h.rank < 2 := by omega
  rw [onPlane]
  simp only [two, apart, if_false, h.resolve_of_declared firstDeclared,
    h.resolve_of_declared secondDeclared, found, h.tensor_of_fit frame addressable fits, bind,
    Except.bind]
  exact planeOf_shows less left named

structure Suits (h : Header) (frames : List (List α)) (step : Nat) (a b : Axis)
    (frame : List α) : Prop where
  first : a.index < h.rank
  second : b.index < h.rank
  apart : a ≠ b
  found : frames[step]? = some frame
  fits : frame.length = h.extents.prod
  addressable : Word.Addressable h.arrayShape

omit [Inhabited α] in
theorem Suits.less {h : Header} {frames : List (List α)} {step : Nat} {a b : Axis}
    {frame : List α} (suits : Suits h frames step a b frame) :
    min a.index b.index < max a.index b.index := by
  have other : a.index ≠ b.index := fun same => suits.apart (congrArg Axis.mk same)
  omega

omit [Inhabited α] in
theorem Suits.declared {h : Header} {frames : List (List α)} {step : Nat} {a b : Axis}
    {frame : List α} (suits : Suits h frames step a b frame) :
    ∀ j ∈ [a.index, b.index], j < h.rank :=
  all_pair suits.first suits.second

omit [Inhabited α] in
theorem Suits.distinct {h : Header} {frames : List (List α)} {step : Nat} {a b : Axis}
    {frame : List α} (suits : Suits h frames step a b frame) : [a.index, b.index].Nodup := by
  have less := suits.less
  simp only [List.nodup_cons, List.mem_singleton, List.not_mem_nil, not_false_eq_true,
    List.nodup_nil, and_true]
  omega

omit [Inhabited α] in
theorem Suits.crosses_iff {h : Header} {frames : List (List α)} {step : Nat} {a b : Axis}
    {frame : List α} (suits : Suits h frames step a b frame) (r q i : Nat) :
    (∀ j ∈ [a.index, b.index],
        digit h.extents j i = crossing (max a.index b.index) r q j) ↔
      digit h.extents (max a.index b.index) i = r ∧
        digit h.extents (min a.index b.index) i = q := by
  rw [forall_mem_pair, crossing_self, crossing_of_ne r q suits.less.ne]

theorem onPlane_cells {frames : List (List α)} {step : Nat} {a b : Axis} {frame : List α}
    (suits : Suits h frames step a b frame) :
    ∃ plane, onPlane rule h frames step a b = .ok plane ∧
      onPlane rule h frames step b a = .ok plane ∧
      plane.rowAxis.index = max a.index b.index ∧
      plane.columnAxis.index = min a.index b.index ∧
      plane.grid.Meshed (h.extents.getD (max a.index b.index) 0)
        (h.extents.getD (min a.index b.index) 0) ∧
      ∀ c, Inside h.extents [a.index, b.index] c →
        plane.grid.cell? (c (max a.index b.index)) (c (min a.index b.index)) =
          some (Declared.project rule h.extents [a.index, b.index] frame c) := by
  have less := suits.less
  have declared : max a.index b.index < h.rank := max_lt suits.first suits.second
  have named : a.index = max a.index b.index ∧ b.index = min a.index b.index ∨
      a.index = min a.index b.index ∧ b.index = max a.index b.index := by omega
  have members := mem_pair_iff named
  refine ⟨_, onPlane_of_fit rule h frames step suits.addressable less declared named
    suits.found suits.fits, onPlane_of_fit rule h frames step suits.addressable less declared
    (named.symm.imp And.symm And.symm) suits.found suits.fits, rfl, rfl,
    Grid.meshed_ofFn _ _ _, ?_⟩
  intro c inside
  obtain ⟨low, left⟩ := (forall_mem_pair _ _ _).mp inside
  rw [planeOn, Grid.cell?_ofFn _ low left, Declared.project_congr rule h.extents frame members]
  refine congrArg some (Declared.project_local rule h.extents _ frame
    (List.pairwise_pair.mpr less.ne') ?_ ?_)
  · exact all_pair declared (less.trans declared)
  · exact all_pair (crossing_self _ _ _) (crossing_of_ne _ _ less.ne)

theorem onPlane_cell {frames : List (List α)} {step : Nat} {a b : Axis} {frame : List α}
    (suits : Suits h frames step a b frame) :
    ∃ plane, onPlane rule h frames step a b = .ok plane ∧
      plane.grid.Meshed (h.extents.getD (max a.index b.index) 0)
        (h.extents.getD (min a.index b.index) 0) ∧
      ∀ r q, r < h.extents.getD (max a.index b.index) 0 →
        q < h.extents.getD (min a.index b.index) 0 →
        plane.grid.cell? r q = some (Declared.project rule h.extents [a.index, b.index] frame
          (crossing (max a.index b.index) r q)) := by
  obtain ⟨plane, done, _, _, _, meshed, cells⟩ := onPlane_cells rule h suits
  refine ⟨plane, done, meshed, fun r q low left => ?_⟩
  have cell := cells _ (inside_crossing suits.less low left)
  rwa [crossing_self, crossing_of_ne r q suits.less.ne] at cell

/-- What may be wrong with a request for a plane; of several faults the first one counts. -/
def planeFaults (h : Header) (frames : List (List α)) (step : Nat) (a b : Axis) :
    List (Bool × Error) :=
  let actual := (frames.getD step []).length
  let expected := min h.extents.prod Word.limit
  [(decide (h.rank < 2), .projection (.tooFewAxes h.rank)),
    (decide (a = b), .projection (.repeatedAxis a)),
    (decide (h.rank ≤ a.index), .undefinedAxis a h.rank),
    (decide (h.rank ≤ b.index), .undefinedAxis b h.rank),
    (decide (frames.length ≤ step), .stepOutOfRange step frames.length),
    (decide (actual ≠ expected), .shapeMismatch h.extents expected actual none),
    (decide (¬ Word.Addressable h.arrayShape), .projection .unaddressable)]

def planeFault? (h : Header) (frames : List (List α)) (step : Nat) (a b : Axis) : Option Error :=
  ((planeFaults h frames step a b).find? (·.1)).map (·.2)

omit [Inhabited α] in
theorem suits_of_no_fault {frames : List (List α)} {step : Nat} {a b : Axis}
    (none : planeFault? h frames step a b = none) :
    Suits h frames step a b (frames.getD step []) := by
  simp only [planeFault?, planeFaults, Option.map_eq_none_iff, List.find?_eq_none,
    List.forall_mem_cons, decide_eq_true_eq, Nat.not_lt, Nat.not_le, not_not] at none
  obtain ⟨_, apart, first, second, inRange, count, addressable, _⟩ := none
  have short := h.prod_le_of_addressable addressable
  have room : Word.arrayLimit ≤ Word.limit := by decide
  have found : frames[step]? = some (frames.getD step []) := by simp [inRange]
  have fits : (frames.getD step []).length = h.extents.prod := by omega
  exact ⟨first, second, apart, found, fits, addressable⟩

theorem onPlane_of_fault {frames : List (List α)} {step : Nat} {a b : Axis} {cause : Error}
    (fault : planeFault? h frames step a b = some cause) :
    onPlane rule h frames step a b = .error cause := by
  simp only [planeFault?, planeFaults, List.find?_cons, List.find?_nil] at fault
  rw [onPlane]
  by_cases few : h.rank < 2
  · obtain rfl : _ = cause := by simpa [few] using fault
    simp only [few, if_true]
    rfl
  by_cases twice : a = b
  · obtain rfl : _ = cause := by simpa [few, twice] using fault
    simp only [few, twice, if_true, if_false]
    rfl
  by_cases first : h.rank ≤ a.index
  · obtain rfl : _ = cause := by simpa [few, twice, first] using fault
    simp only [few, twice, if_false, h.resolve_of_undeclared first]
    rfl
  by_cases second : h.rank ≤ b.index
  · obtain rfl : _ = cause := by simpa [few, twice, first, second] using fault
    simp only [few, twice, if_false, h.resolve_of_declared (Nat.not_le.mp first),
      h.resolve_of_undeclared second]
    rfl
  simp only [few, twice, if_false, h.resolve_of_declared (Nat.not_le.mp first),
    h.resolve_of_declared (Nat.not_le.mp second), bind, Except.bind]
  by_cases late : frames.length ≤ step
  · obtain rfl : _ = cause := by simpa [few, twice, first, second, late] using fault
    simp only [List.getElem?_eq_none late]
    rfl
  have inRange : step < frames.length := Nat.not_le.mp late
  simp only [List.getElem?_eq_getElem inRange]
  by_cases misfit : frames[step].length ≠ min h.extents.prod Word.limit
  · obtain rfl : _ = cause := by
      simpa [few, twice, first, second, late, inRange, misfit] using fault
    rw [← h.elementCount_eq] at misfit ⊢
    simp [h.tensor_of_misfit _ misfit]
  have count : frames[step].length = min h.extents.prod Word.limit := not_not.mp misfit
  by_cases addressable : Word.Addressable h.arrayShape
  · simp [few, twice, first, second, late, inRange, count, addressable] at fault
  · obtain rfl : _ = cause := by
      simpa [few, twice, first, second, late, inRange, count, addressable] using fault
    rw [← h.elementCount_eq] at count
    simp only [h.tensor_of_not_addressable _ count addressable]

/-- Onto one axis, every frame has its row: the cell at a position of the axis is the frame with all
    other declared axes collapsed by the method, from the last to the first. Otherwise the axis is
    undeclared, or the first frame of another length is refused. Of shapes that no array can address
    nothing is said. -/
theorem onAxis_collapses_others (m : Aggregation) (h : Header) (frames : List (List Float))
    (axis : Axis) :
    (h.rank ≤ axis.index →
      onAxis m.rule h frames axis = .error (.undefinedAxis axis h.rank)) ∧
    (axis.index < h.rank → Word.Addressable h.arrayShape →
      Word.Addressable [frames.length, h.extents.getD axis.index 0] →
      ((∀ frame ∈ frames, frame.length = h.extents.prod) →
        ∃ grid, onAxis m.rule h frames axis = .ok grid ∧
          grid.Meshed frames.length (h.extents.getD axis.index 0) ∧
          ∀ (s : Nat) (frame : List Float) (c : Nat → Nat), frames[s]? = some frame →
            c axis.index < h.extents.getD axis.index 0 →
            grid.cell? s (c axis.index) =
              some (Declared.project m.value h.extents [axis.index] frame c)) ∧
      (∀ before frame after, frames = before ++ frame :: after →
        (∀ earlier ∈ before, earlier.length = h.extents.prod) →
        frame.length ≠ h.extents.prod →
        onAxis m.rule h frames axis =
          .error (.shapeMismatch h.extents h.extents.prod frame.length none))) := by
  rw [m.rule_eq_value]
  refine ⟨onAxis_of_undeclared m.value h frames, fun declared addressable room => ⟨?_, ?_⟩⟩
  · exact onAxis_cells m.value h frames addressable declared room
  · rintro before frame after rfl fine misfit
    exact onAxis_of_first_misfit m.value h before frame after addressable declared room fine misfit

/-- Three axes of extents 2, 3 and 2, and a frame that numbers their cells from one. -/
def box : Header :=
  Header.ofExtents [2, 3, 2]

def boxFrame : List Float :=
  [1, 2, 3, 4, 5, 6, 7, 8, 9, 10, 11, 12]

theorem onAxis_of_box :
    onAxis Aggregation.sum.rule box [boxFrame] ⟨3⟩ = .error (.undefinedAxis ⟨3⟩ 3) ∧
    (∀ m ∈ [(Aggregation.sum, 34), (.average, 8.5), (.maximum, 12)],
      ∃ grid, onAxis m.1.rule box [boxFrame] ⟨1⟩ = .ok grid ∧ grid.Meshed 1 3 ∧
        grid.cell? 0 2 = some m.2) ∧
    onAxis Aggregation.sum.rule box [boxFrame, [0]] ⟨1⟩ =
      .error (.shapeMismatch [2, 3, 2] 12 1 none) := by
  refine ⟨(onAxis_collapses_others .sum box [boxFrame] ⟨3⟩).1 (by decide), ?_, ?_⟩
  · have values : ∀ m ∈ [(Aggregation.sum, 34), (.average, 8.5), (.maximum, 12)],
        Declared.project m.1.value [2, 3, 2] [1] boxFrame (fun _ => 2) = m.2 := by
      decide +kernel
    intro m member
    obtain ⟨grid, done, meshed, cells⟩ := ((onAxis_collapses_others m.1 box [boxFrame] ⟨1⟩).2
      (by decide) (by decide) (by decide)).1 (by decide)
    exact ⟨grid, done, meshed, values m member ▸ cells 0 boxFrame (fun _ => 2) rfl (by decide)⟩
  · exact ((onAxis_collapses_others .sum box [boxFrame, [0]] ⟨1⟩).2
      (by decide) (by decide) (by decide)).2 [boxFrame] [0] [] rfl (by decide) (by decide)

/-- Onto two axes, in either order: the axis declared later is along the rows, and the cell at two
    positions is the frame with all other declared axes collapsed by the method, from the last to the
    first. Any other request is refused for its first fault. -/
theorem onPlane_collapses_others (m : Aggregation) (h : Header) (frames : List (List Float))
    (step : Nat) (a b : Axis) :
    (∀ frame, Suits h frames step a b frame →
      ∃ plane, onPlane m.rule h frames step a b = .ok plane ∧
        onPlane m.rule h frames step b a = .ok plane ∧
        plane.rowAxis.index = max a.index b.index ∧
        plane.columnAxis.index = min a.index b.index ∧
        plane.grid.Meshed (h.extents.getD (max a.index b.index) 0)
          (h.extents.getD (min a.index b.index) 0) ∧
        ∀ c, Inside h.extents [a.index, b.index] c →
          plane.grid.cell? (c (max a.index b.index)) (c (min a.index b.index)) =
            some (Declared.project m.value h.extents [a.index, b.index] frame c)) ∧
    ((∀ frame, ¬ Suits h frames step a b frame) →
      ∃ fault, planeFault? h frames step a b = some fault ∧
        onPlane m.rule h frames step a b = .error fault) := by
  rw [m.rule_eq_value]
  constructor
  · intro frame suits
    exact onPlane_cells m.value h suits
  · intro unsuited
    cases fault : planeFault? h frames step a b with
    | none => exact absurd (suits_of_no_fault h fault) (unsuited _)
    | some cause => exact ⟨cause, rfl, onPlane_of_fault m.value h fault⟩

theorem onPlane_of_box :
    Suits box [boxFrame] 0 ⟨0⟩ ⟨2⟩ boxFrame ∧
    (∀ m ∈ [(Aggregation.sum, 30), (.average, 10), (.maximum, 12)],
      ∃ plane, onPlane m.1.rule box [boxFrame] 0 ⟨0⟩ ⟨2⟩ = .ok plane ∧
        onPlane m.1.rule box [boxFrame] 0 ⟨2⟩ ⟨0⟩ = .ok plane ∧
        plane.rowAxis.index = 2 ∧ plane.columnAxis.index = 0 ∧ plane.grid.Meshed 2 2 ∧
        plane.grid.cell? 1 1 = some m.2) ∧
    (∀ frame, ¬ Suits box [boxFrame] 1 ⟨0⟩ ⟨2⟩ frame) ∧
    ∃ fault, planeFault? box [boxFrame] 1 ⟨0⟩ ⟨2⟩ = some fault ∧
      onPlane Aggregation.sum.rule box [boxFrame] 1 ⟨0⟩ ⟨2⟩ = .error fault := by
  have suits : Suits box [boxFrame] 0 ⟨0⟩ ⟨2⟩ boxFrame :=
    ⟨by decide, by decide, by decide, rfl, by decide, by decide⟩
  have late : ∀ frame, ¬ Suits box [boxFrame] 1 ⟨0⟩ ⟨2⟩ frame := by
    intro frame unsuited
    exact absurd unsuited.found (by simp)
  have values : ∀ m ∈ [(Aggregation.sum, 30), (.average, 10), (.maximum, 12)],
      Declared.project m.1.value [2, 3, 2] [0, 2] boxFrame (fun _ => 1) = m.2 := by
    decide +kernel
  refine ⟨suits, fun m member => ?_, late,
    (onPlane_collapses_others .sum box [boxFrame] 1 ⟨0⟩ ⟨2⟩).2 late⟩
  obtain ⟨plane, done, swapped, row, column, meshed, cells⟩ :=
    (onPlane_collapses_others m.1 box [boxFrame] 0 ⟨0⟩ ⟨2⟩).1 boxFrame suits
  exact ⟨plane, done, swapped, row, column, meshed,
    values m member ▸ cells (fun _ => 1) (by decide)⟩

end Projection
end FieldPlot
