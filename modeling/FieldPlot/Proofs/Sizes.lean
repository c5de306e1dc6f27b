import FieldPlot.Proofs.Layouts

/-!
Sizes of figures. Along an axis that a figure names its data is as long as the axis, and a time
course has one row or one position for each step. Snapshots of data with one axis and several
channels are the exception: their line is a whole frame, with all channels, along that axis.
-/
namespace FieldPlot

namespace Grid

structure SameShape {α β : Type} (a : Grid α) (b : Grid β) : Prop where
  height : a.height = b.height
  columns : a.columns = b.columns

theorem rowMesh_sameShape {α : Type} (g : Grid α) : g.rowMesh.SameShape g where
  height := height_ofFn _ _ _
  columns := rfl

theorem columnMesh_sameShape {α : Type} (g : Grid α) : g.columnMesh.SameShape g where
  height := height_ofFn _ _ _
  columns := rfl

end Grid

namespace Header

theorem extent?_of_declared (h : Header) {axis : Nat} (declared : axis < h.rank) :
    h.extent? axis = some (h.extents.getD axis 0) := by
  have bound : axis < h.extents.length := declared
  rw [extent?, List.getElem?_eq_getElem bound, List.getD_eq_getElem _ _ bound]

end Header

namespace Content

inductive HasColumns (n : Nat) : Content → Prop where
  | line {values : List Float} (count : values.length = n) : HasColumns n (.line values)
  | grid {cells : Grid Float} (count : cells.columns = n) : HasColumns n (.grid cells)

inductive HasRows (n : Nat) : Content → Prop where
  | grid {cells : Grid Float} (count : cells.height = n) : HasRows n (.grid cells)

inductive HasSteps (n : Nat) : Content → Prop where
  | line {values : List Float} (count : values.length = n) : HasSteps n (.line values)
  | grid {cells : Grid Float} (count : cells.height = n) : HasSteps n (.grid cells)

end Content

/-- The data has the extents of the axes along it, which are declared, and the meshes of a grid have
    the shape of its values. -/
structure Layout.Sized (h : Header) (layout : Layout) : Prop where
  columns : ∀ axis, layout.columnAxis = some axis →
    ∃ extent, h.extent? axis.index = some extent ∧ layout.content.HasColumns extent
  rows : ∀ axis, layout.rowAxis = some axis →
    ∃ extent, h.extent? axis.index = some extent ∧ layout.content.HasRows extent
  meshes : ∀ cells, layout.content = .grid cells →
    cells.rowMesh.SameShape cells ∧ cells.columnMesh.SameShape cells

namespace Layout

variable {h : Header} {content : Content}

theorem meshes_sameShape (cells : Grid Float) (_ : content = .grid cells) :
    cells.rowMesh.SameShape cells ∧ cells.columnMesh.SameShape cells :=
  ⟨cells.rowMesh_sameShape, cells.columnMesh_sameShape⟩

theorem sized_of_no_axes (h : Header) (content : Content) : Sized h { content := content } where
  columns := nofun
  rows := nofun
  meshes := meshes_sameShape

theorem sized_of_column {axis : Axis} (declared : axis.index < h.rank)
    (count : content.HasColumns (h.extents.getD axis.index 0)) :
    Sized h { content := content, columnAxis := some axis } where
  columns := by
    rintro _ ⟨⟩
    exact ⟨_, h.extent?_of_declared declared, count⟩
  rows := nofun
  meshes := meshes_sameShape

theorem sized_of_grid {row column : Axis} {grid : Grid Float} (low : row.index < h.rank)
    (left : column.index < h.rank)
    (meshed : grid.Meshed (h.extents.getD row.index 0) (h.extents.getD column.index 0)) :
    Sized h ⟨.grid grid, some row, some column⟩ where
  columns := by
    rintro _ ⟨⟩
    exact ⟨_, h.extent?_of_declared left, .grid meshed.columns_eq⟩
  rows := by
    rintro _ ⟨⟩
    exact ⟨_, h.extent?_of_declared low, .grid meshed.height_eq⟩
  meshes := meshes_sameShape

inductive IsWholeFrame (h : Header) : Layout → Prop where
  | line {values : List Float} (rank : h.rank = 1) (several : h.channels ≠ 1)
      (count : values.length = Word.mulClamped h.channels (h.extents.getD 0 0)) :
      IsWholeFrame h { content := .line values, columnAxis := some ⟨0⟩ }

end Layout

def Figure.layout (f : Figure) : Layout :=
  ⟨f.content, f.rowAxis, f.columnAxis⟩

namespace Recording

variable {r : Recording} {q : Request}

theorem meshed_of_plainGrid {h : Header} {frame : List Float} {grid : Grid Float}
    (laid : plainGrid h frame = .ok grid) :
    grid.Meshed (h.extents.getD 1 0) (h.extents.getD 0 0) := by
  rw [plainGrid] at laid
  obtain ⟨_, _, laid⟩ := bind_eq_ok laid
  obtain rfl := Except.ok.inj laid
  exact Grid.meshed_ofFn _ _ _

theorem parts_of_frameRows {h : Header} {frames : List (List Float)} {grid : Grid Float}
    (laid : frameRows h frames = .ok grid) :
    Word.Addressable [frames.length, h.extents.getD 0 0] ∧ grid.columns = h.extents.getD 0 0 ∧
      grid.rows = frames := by
  rw [frameRows] at laid
  obtain ⟨_, allocated, laid⟩ := bind_eq_ok laid
  obtain ⟨_, _, laid⟩ := bind_eq_ok laid
  split at laid
  · rename_i made
    obtain rfl := Except.ok.inj laid
    exact ⟨Grid.addressable_of_allocate allocated, Grid.parts_of_ofRows? made⟩
  · contradiction

/-- Every frame of data without axes has a first value, as an element has a channel. -/
theorem length_series (rank : r.rank = 0) : r.series.length = r.steps := by
  rw [series, steps, List.filterMap_length_eq_length]
  intro frame member
  have long : frame.length = r.header.channels :=
    (r.frames_length frame member).trans (Header.frameLength_of_scalar rank)
  have filled : frame ≠ [] := List.ne_nil_of_length_pos (long ▸ r.header.channels_pos)
  rw [List.head?_eq_some_head filled]
  rfl

theorem sized_of_showsStep {step : Nat} {frame : List Float} {layout : Layout}
    (counts : ∀ e ∈ r.header.extents, e ≤ Word.limit) (member : frame ∈ r.frames)
    (shows : ShowsStep r q step frame layout) :
    layout.Sized r.header ∨ layout.IsWholeFrame r.header := by
  cases shows with
  | image asked decoded => exact .inl (Layout.sized_of_no_axes _ _)
  | scalar plotted rank => exact .inl (Layout.sized_of_no_axes _ _)
  | line plotted rank =>
    have long : frame.length = Word.mulClamped r.header.channels (r.header.extents.getD 0 0) :=
      (r.frames_length frame member).trans (Header.frameLength_of_line rank)
    -- No check against the extent here, so the frame keeps its channels.
    by_cases several : r.header.channels = 1
    · have declared : 0 < r.header.extents.length := rank.ge
      have bound : r.header.extents.getD 0 0 ≤ Word.limit := by
        rw [List.getD_eq_getElem _ _ declared]
        exact counts _ (List.getElem_mem declared)
      rw [several, Word.mulClamped, Nat.one_mul, Nat.min_eq_left bound] at long
      exact .inl (Layout.sized_of_column declared (.line long))
    · exact .inr (.line rank several long)
  | plane plotted rank selected projected =>
    obtain ⟨low, left, meshed⟩ := Projection.meshed_of_onPlane projected
    exact .inl (Layout.sized_of_grid low left meshed)
  | profile plotted rank selected projected =>
    have made := Projection.projected_of_onAxis projected
    refine .inl (Layout.sized_of_column made.declared (.line ?_))
    rw [Grid.length_values, made.height, List.length_singleton, Nat.one_mul, made.columns]
  | plain plotted rank selected laid =>
    have declared : 1 < r.header.rank := rank.ge
    exact .inl (Layout.sized_of_grid declared (Nat.zero_lt_of_lt declared)
      (meshed_of_plainGrid laid))

theorem sized_of_showsCourse {layout : Layout} (shows : ShowsCourse r q layout) :
    layout.Sized r.header ∧ layout.content.HasSteps r.steps := by
  cases shows with
  | series rank => exact ⟨Layout.sized_of_no_axes _ _, .line (length_series rank)⟩
  | frames rank laid =>
    obtain ⟨_, columns, rows⟩ := parts_of_frameRows laid
    have declared : 0 < r.header.rank := rank.ge
    exact ⟨Layout.sized_of_column declared (.grid columns), .grid (congrArg List.length rows)⟩
  | profiles rank selected projected =>
    have made := Projection.projected_of_onAxis projected
    exact ⟨Layout.sized_of_column made.declared (.grid made.columns), .grid made.height⟩

theorem sized_of_snapshotIn {mode : Mode} {step : Nat} {f : Figure}
    (counts : ∀ e ∈ r.header.extents, e ≤ Word.limit) (done : r.snapshotIn mode q step = .ok f) :
    f.layout.Sized r.header ∨ f.layout.IsWholeFrame r.header := by
  obtain ⟨frame, layout, found, shows, rfl⟩ := showsStep_of_snapshotIn done
  exact sized_of_showsStep counts (List.mem_of_getElem? found) shows

/-- Figures have the sizes of the axes they name, and time courses have all steps. Only a snapshot
    along the one axis of data with several channels is as long as a whole frame instead. Extents
    are counts of 64 bits. -/
theorem figures_have_sizes_of_axes (r : Recording) (q : Request)
    (counts : ∀ e ∈ r.header.extents, e ≤ Word.limit) :
    (∀ step f, r.snapshot q step = .ok f →
      f.layout.Sized r.header ∨ f.layout.IsWholeFrame r.header) ∧
    (∀ start stride count figures, r.sequence q start stride count = .ok figures →
      ∀ f ∈ figures, f.layout.Sized r.header ∨ f.layout.IsWholeFrame r.header) ∧
    ∀ marked f, r.timeCourse q marked = .ok f →
      f.layout.Sized r.header ∧ f.content.HasSteps r.steps := by
  refine ⟨fun step f done => sized_of_snapshotIn counts done,
    fun start stride count figures done f member => ?_, fun marked f done => ?_⟩
  · obtain ⟨step, shot⟩ := snapshotIn_of_mem_sequence done f member
    exact sized_of_snapshotIn counts shot
  · obtain ⟨_, layout, marker, shows, _, rfl⟩ := showsCourse_of_timeCourse done
    exact sized_of_showsCourse shows

def strip : Recording where
  header := Header.ofExtents [3]
  times := [0, 1]
  frames := [[1, 2, 3], [4, 5, 6]]
  times_length := by decide
  frames_length := by decide

theorem strip_has_sizes_of_axes :
    (∃ f, strip.snapshot {} 1 = .ok f ∧ f.content.values = [4, 5, 6] ∧
      f.layout.Sized strip.header) ∧
    (∃ figures, strip.sequence {} 0 1 2 = .ok figures ∧ figures.length = 2 ∧
      ∀ f ∈ figures, f.layout.Sized strip.header) ∧
    ∃ f, strip.timeCourse { style := .heatmap } (some 1) = .ok f ∧ f.layout.Sized strip.header ∧
      f.content.HasSteps 2 := by
  have counts : ∀ e ∈ strip.header.extents, e ≤ Word.limit := by decide
  have single : ∀ layout, ¬ Layout.IsWholeFrame strip.header layout := by
    rintro _ ⟨_, several, _⟩
    exact several rfl
  refine ⟨?_, ?_, ?_⟩
  · have values : (strip.snapshot {} 1).map (·.content.values) = .ok [4, 5, 6] := rfl
    obtain ⟨f, done, values⟩ := map_eq_ok values
    have sized := (figures_have_sizes_of_axes strip {} counts).1 1 f done
    exact ⟨f, done, values, sized.resolve_right (single _)⟩
  · have count : (strip.sequence {} 0 1 2).map List.length = .ok 2 := by
      decide +kernel
    obtain ⟨figures, done, count⟩ := map_eq_ok count
    have sized := (figures_have_sizes_of_axes strip {} counts).2.1 _ _ _ figures done
    exact ⟨figures, done, count, fun f member => (sized f member).resolve_right (single _)⟩
  · have made : (strip.timeCourse { style := .heatmap } (some 1)).map (·.mode) =
        .ok .timeCourse := by
      decide +kernel
    obtain ⟨f, done, _⟩ := map_eq_ok made
    have sized := (figures_have_sizes_of_axes strip { style := .heatmap } counts).2.2 _ f done
    exact ⟨f, done, sized⟩

def colourStrip : Recording where
  header := ⟨"Mat", "CV_8UC3", [2]⟩
  times := [0]
  frames := [[1, 2, 3, 4, 5, 6]]
  times_length := by decide
  frames_length := by decide

/-- The snapshot has six values along an axis of extent two; the time course is refused. -/
theorem line_outgrows_axis :
    (∃ f, colourStrip.snapshot {} 0 = .ok f ∧ f.columnAxis = some ⟨0⟩ ∧
      f.content = .line [1, 2, 3, 4, 5, 6] ∧ colourStrip.header.extent? 0 = some 2 ∧
      ¬ f.layout.Sized colourStrip.header) ∧
    colourStrip.timeCourse {} none = .error (.shapeMismatch [2] 2 6 none) := by
  refine ⟨⟨_, rfl, rfl, rfl, rfl, fun sized => ?_⟩, rfl⟩
  obtain ⟨_, ⟨⟩, count⟩ := sized.columns ⟨0⟩ rfl
  cases count with
  | line count => contradiction

end Recording
end FieldPlot
