import FieldPlot.Proofs.Agreement
import FieldPlot.Proofs.Sizes

/-!
What figures say of their projection. A figure carries the selection that was asked for. Data with
two axes or more is shown along the axes that it names, and these are declared. Data with fewer axes
is shown as it was recorded whatever is selected, so there the report is right only if it happens to
name the one axis and no other. Images, which are never projected, are left out.
-/
namespace FieldPlot

/-- The axes that the selection names are declared, and they are those along the data. -/
structure Selection.Describes (s : Selection) (rank : Nat) (row column : Option Axis) : Prop where
  declared : ∀ a ∈ s.axes, a.index < rank
  shown : ∀ a, (row = some a ∨ column = some a) ↔ a ∈ s.axes

namespace Selection

inductive ShownAlong (s : Selection) (rank : Nat) : Option Axis → Option Axis → Prop where
  | scalar (empty : rank = 0) : ShownAlong s rank none none
  | line (one : rank = 1) : ShownAlong s rank none (some ⟨0⟩)
  | axis {a : Axis} (many : 2 ≤ rank) (selected : s = single a) (declared : a.index < rank) :
      ShownAlong s rank none (some a)
  | plane {a b row column : Axis} (many : 2 ≤ rank) (selected : s = pair a b)
      (first : a.index < rank) (second : b.index < rank) (high : row.index = max a.index b.index)
      (low : column.index = min a.index b.index) : ShownAlong s rank (some row) (some column)
  | plain (two : rank = 2) (unselected : s = unprojected) :
      ShownAlong s rank (some ⟨1⟩) (some ⟨0⟩)

theorem exists_mem_axes {s : Selection} (selected : s ≠ unprojected) : ∃ a, a ∈ s.axes := by
  cases s with
  | unprojected => contradiction
  | single a => exact ⟨a, List.mem_singleton_self a⟩
  | pair a b => exact ⟨a, List.mem_cons_self⟩

theorem extreme_iff_mem_pair {a b row column : Axis} (high : row.index = max a.index b.index)
    (low : column.index = min a.index b.index) (c : Axis) :
    (row = c ∨ column = c) ↔ c = a ∨ c = b := by
  cases a
  cases b
  cases c
  cases row
  cases column
  simp only [Axis.mk.injEq] at high low ⊢
  omega

theorem ShownAlong.describes_iff {s : Selection} {rank : Nat} {row column : Option Axis}
    (along : s.ShownAlong rank row column) (selected : s ≠ unprojected) :
    s.Describes rank row column ↔ 2 ≤ rank ∨ rank = 1 ∧ ∀ a ∈ s.axes, a = ⟨0⟩ := by
  obtain ⟨named, member⟩ := exists_mem_axes selected
  cases along with
  | scalar empty =>
    refine iff_of_false (fun describes => ?_) (by omega)
    have := describes.declared named member
    omega
  | line one =>
    constructor
    · intro describes
      refine .inr ⟨one, fun a other => ?_⟩
      rcases (describes.shown a).mpr other with along | along
      · contradiction
      · exact (Option.some.inj along).symm
    · rintro (many | ⟨_, all⟩)
      · omega
      · refine ⟨fun a other => ?_, fun a => ⟨fun along => ?_, fun other => ?_⟩⟩
        · rw [all a other, one]
          exact Nat.zero_lt_one
        · rcases along with along | along
          · contradiction
          · rw [← Option.some.inj along, ← all named member]
            exact member
        · exact .inr (congrArg some (all a other).symm)
  | axis many chosen declared =>
    subst chosen
    refine iff_of_true ⟨?_, fun a => ?_⟩ (.inl many)
    · simpa [axes] using declared
    · simp [axes, eq_comm]
  | plane many chosen first second high low =>
    subst chosen
    refine iff_of_true ⟨?_, fun a => ?_⟩ (.inl many)
    · simpa [axes] using And.intro first second
    · simpa [axes] using extreme_iff_mem_pair high low a
  | plain two unselected => contradiction

end Selection

namespace Recording

variable {r : Recording} {q : Request}

inductive FigureOf (r : Recording) (q : Request) (f : Figure) : Prop where
  | snapshot (step : Nat) (done : r.snapshot q step = .ok f) : FigureOf r q f
  | inSequence (start stride count : Nat) (figures : List Figure)
      (done : r.sequence q start stride count = .ok figures) (member : f ∈ figures) :
      FigureOf r q f
  | timeCourse (marked : Option Nat) (done : r.timeCourse q marked = .ok f) : FigureOf r q f

theorem shownAlong_of_showsStep (plotted : q.style ≠ .image) {step : Nat} {frame : List Float}
    {layout : Layout} (shows : ShowsStep r q step frame layout) :
    q.selection.ShownAlong r.rank layout.rowAxis layout.columnAxis := by
  cases shows with
  | image asked decoded => contradiction
  | scalar _ rank => exact .scalar rank
  | line _ rank => exact .line rank
  | plane _ rank selected projected =>
    have suits := Projection.suits_of_onPlane projected
    obtain ⟨high, low, _⟩ := Projection.axes_of_onPlane projected
    exact .plane rank selected suits.first suits.second high low
  | profile _ rank selected projected =>
    exact .axis rank selected (Projection.projected_of_onAxis projected).declared
  | plain _ rank selected laid => exact .plain rank selected

theorem shownAlong_of_showsCourse {layout : Layout} (shows : ShowsCourse r q layout) :
    q.selection.ShownAlong r.rank layout.rowAxis layout.columnAxis := by
  cases shows with
  | series rank => exact .scalar rank
  | frames rank laid => exact .line rank
  | profiles rank selected projected =>
    exact .axis rank selected (Projection.projected_of_onAxis projected).declared

theorem shownAlong_of_snapshotIn (plotted : q.style ≠ .image) {mode : Mode} {step : Nat}
    {f : Figure} (done : r.snapshotIn mode q step = .ok f) :
    f.selection = q.selection ∧ q.selection.ShownAlong r.rank f.rowAxis f.columnAxis := by
  obtain ⟨frame, layout, _, shows, rfl⟩ := showsStep_of_snapshotIn done
  exact ⟨rfl, shownAlong_of_showsStep plotted shows⟩

theorem shownAlong_of_figureOf (plotted : q.style ≠ .image) {f : Figure} (made : FigureOf r q f) :
    f.selection = q.selection ∧ q.selection.ShownAlong r.rank f.rowAxis f.columnAxis := by
  cases made with
  | snapshot step done => exact shownAlong_of_snapshotIn plotted done
  | inSequence start stride count figures done member =>
    obtain ⟨step, shot⟩ := snapshotIn_of_mem_sequence done f member
    exact shownAlong_of_snapshotIn plotted shot
  | timeCourse marked done =>
    obtain ⟨_, layout, marker, shows, _, rfl⟩ := showsCourse_of_timeCourse done
    exact ⟨rfl, shownAlong_of_showsCourse shows⟩

/-- With fewer than two axes the selection changes nothing but what a figure says of it. -/
theorem selection_only_reported (plotted : q.style ≠ .image) (few : r.rank < 2) (s : Selection) :
    (∀ mode step, r.snapshotIn mode { q with selection := s } step =
      (r.snapshotIn mode q step).map fun f => { f with selection := s }) ∧
    ∀ marked, r.timeCourse { q with selection := s } marked =
      (r.timeCourse q marked).map fun f => { f with selection := s } := by
  have plotted' : { q with selection := s }.style ≠ .image := plotted
  constructor
  · intro mode step
    have layouts : ∀ frame, r.snapshotLayout { q with selection := s } step frame =
        r.snapshotLayout q step frame := by
      intro frame
      obtain ranked | ranked : r.rank = 0 ∨ r.rank = 1 := by omega
      · rw [snapshotLayout, snapshotLayout, ranked]
        rfl
      · rw [snapshotLayout, snapshotLayout, ranked]
        rfl
    cases found : r.frames[step]? with
    | none =>
      have late := List.getElem?_eq_none_iff.mp found
      rw [snapshotIn_of_late mode late, snapshotIn_of_late mode late]
      rfl
    | some frame =>
      rw [snapshotIn_of_plotted mode plotted' found, snapshotIn_of_plotted mode plotted found,
        layouts]
      cases r.snapshotLayout q step frame with
      | error cause => rfl
      | ok layout => rfl
  · intro marked
    have layout : r.courseLayout { q with selection := s } = r.courseLayout q := by
      obtain ranked | ranked : r.rank = 0 ∨ r.rank = 1 := by omega
      · rw [courseLayout, courseLayout, ranked]
        rfl
      · rw [courseLayout, courseLayout, ranked]
        rfl
    rw [timeCourse, timeCourse, if_neg plotted', if_neg plotted, layout]
    cases r.courseLayout q with
    | error cause => rfl
    | ok layout =>
      have same : r.markerAt { q with selection := s } layout.content =
          r.markerAt q layout.content := rfl
      simp only [bind, Except.bind, same]
      cases marked.mapM (r.markerAt q layout.content) with
      | error cause => rfl
      | ok marker => rfl

/-- A figure reports the selection of its request. That is the projection it shows, along axes that
    are declared, just where the data has two axes or more or has one and no other is named. -/
theorem figures_report_their_projection (plotted : q.style ≠ .image)
    (selected : q.selection ≠ .unprojected) {f : Figure} (made : FigureOf r q f) :
    f.selection = q.selection ∧
      (f.selection.Describes r.rank f.rowAxis f.columnAxis ↔
        2 ≤ r.rank ∨ r.rank = 1 ∧ ∀ a ∈ q.selection.axes, a = ⟨0⟩) := by
  obtain ⟨carried, along⟩ := shownAlong_of_figureOf plotted made
  rw [carried]
  exact ⟨rfl, along.describes_iff selected⟩

theorem boxes_report_their_projection :
    (∃ f, boxes.timeCourse secondAxis (some 1) = .ok f ∧ f.selection = .single ⟨1⟩ ∧
      f.selection.Describes boxes.rank f.rowAxis f.columnAxis) ∧
    ∃ f, strip.snapshot { selection := .single ⟨0⟩ } 1 = .ok f ∧ f.selection = .single ⟨0⟩ ∧
      f.selection.Describes strip.rank f.rowAxis f.columnAxis := by
  constructor
  · have made : (boxes.timeCourse secondAxis (some 1)).map (·.mode) = .ok .timeCourse := by
      decide +kernel
    obtain ⟨f, done, _⟩ := map_eq_ok made
    obtain ⟨carried, describes⟩ := figures_report_their_projection (by decide) (by decide)
      (.timeCourse (some 1) done)
    exact ⟨f, done, carried, describes.mpr (.inl (by decide))⟩
  · have made : (strip.snapshot { selection := .single ⟨0⟩ } 1).map (·.mode) = .ok .snapshot := by
      decide +kernel
    obtain ⟨f, done, _⟩ := map_eq_ok made
    obtain ⟨carried, describes⟩ := figures_report_their_projection (by decide) (by decide)
      (.snapshot 1 done)
    exact ⟨f, done, carried, describes.mpr (.inr ⟨rfl, by decide⟩)⟩

/-- Data with one axis: a snapshot that says it is projected onto a fifth, and a time course that
    says it keeps two. -/
theorem undeclared_axes_are_reported :
    (∃ f, strip.snapshot { selection := .single ⟨4⟩ } 0 = .ok f ∧ f.selection = .single ⟨4⟩ ∧
      f.columnAxis = some ⟨0⟩ ∧ strip.header.extent? 4 = none ∧
      ¬ f.selection.Describes strip.rank f.rowAxis f.columnAxis) ∧
    ∃ f, strip.timeCourse { selection := .pair ⟨0⟩ ⟨1⟩ } none = .ok f ∧
      f.selection = .pair ⟨0⟩ ⟨1⟩ ∧
      ¬ f.selection.Describes strip.rank f.rowAxis f.columnAxis := by
  constructor
  · refine ⟨_, rfl, rfl, rfl, rfl, fun describes => ?_⟩
    have declared : 4 < strip.rank := describes.declared ⟨4⟩ (List.mem_singleton_self _)
    contradiction
  · refine ⟨_, rfl, rfl, fun describes => ?_⟩
    have declared : 1 < strip.rank := describes.declared ⟨1⟩ (by decide)
    contradiction

end Recording
end FieldPlot
