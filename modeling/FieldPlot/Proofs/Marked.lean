import FieldPlot.Proofs.Agreement
import FieldPlot.Proofs.Sizes

/-!
Markers. Marking a step comes after everything else (`timeCourse_marked`): a time course that cannot
be made is refused for the same cause with a marker, and one that can be made differs by its marker
only. A step can be marked just if the recording has it, and then the figure has it too, since every
time course has a row or a position for each step.
-/
namespace FieldPlot

def Content.HasStep (step : Nat) : Content → Prop
  | .line values => step < values.length
  | .grid cells => step < cells.height
  | .image _ => False

theorem Content.HasSteps.hasStep {content : Content} {steps step : Nat}
    (has : content.HasSteps steps) (inRange : step < steps) : content.HasStep step := by
  cases has with
  | line count => exact inRange.trans_eq count.symm
  | grid count => exact inRange.trans_eq count.symm

theorem Marker.step_ofStep (step : Nat) (style : Style) (columns : Nat) (range : Float × Float)
    (colour : String) : (Marker.ofStep step style columns range colour).step = step := by
  rw [Marker.ofStep]
  split
  · rfl
  · rfl

namespace Recording

variable {r : Recording} {q : Request}

theorem markerAt_of_late {content : Content} {step : Nat} (late : r.steps ≤ step) :
    r.markerAt q content step = .error (.stepOutOfRange step r.steps) :=
  if_neg (Nat.not_lt.mpr late)

theorem markerAt_of_inRange (q : Request) (content : Content) {step : Nat}
    (inRange : step < r.steps) :
    ∃ marker, r.markerAt q content step = .ok marker ∧ marker.step = step :=
  ⟨_, if_pos inRange, Marker.step_ofStep _ _ _ _ _⟩

/-- The marker is placed in the finished figure. -/
theorem timeCourse_marked (r : Recording) (q : Request) (step : Nat) :
    r.timeCourse q (some step) =
      r.timeCourse q none >>= fun f =>
        (r.markerAt q f.content step).map fun marker => { f with marker := some marker } := by
  rw [timeCourse, timeCourse]
  by_cases asked : q.style = .image
  · simp only [if_pos asked]
    rfl
  · rw [if_neg asked, if_neg asked]
    cases r.courseLayout q with
    | error cause => rfl
    | ok layout =>
      -- The figure shows the layout's own content, whichever marker it has.
      have content : (q.figure .timeCourse none layout).content = layout.content := rfl
      cases placed : r.markerAt q layout.content step with
      | error cause => simp [bind, Except.bind, pure, Except.pure, Except.map, placed, content]
      | ok marker => simp [bind, Except.bind, pure, Except.pure, Except.map, placed, content]

theorem hasSteps_of_timeCourse {marked : Option Nat} {f : Figure}
    (done : r.timeCourse q marked = .ok f) : f.content.HasSteps r.steps := by
  obtain ⟨_, layout, marker, shows, _, rfl⟩ := showsCourse_of_timeCourse done
  exact (sized_of_showsCourse shows).2

theorem marker_of_unmarked {f : Figure} (done : r.timeCourse q none = .ok f) : f.marker = none := by
  obtain ⟨_, layout, marker, _, placed, rfl⟩ := showsCourse_of_timeCourse done
  exact (Except.ok.inj placed).symm

/-- A time course that is refused is refused for the same cause with a marker. One that is made has no
    marker by itself; a step that the recording does not have is refused, and any other is marked in
    the same figure, which has this step. -/
theorem markers_stay_inside (r : Recording) (q : Request) (step : Nat) :
    (∀ cause, r.timeCourse q none = .error cause → r.timeCourse q (some step) = .error cause) ∧
    ∀ f, r.timeCourse q none = .ok f → f.marker = none ∧
      (r.steps ≤ step →
        r.timeCourse q (some step) = .error (.stepOutOfRange step r.steps)) ∧
      (step < r.steps → ∃ marker,
        r.timeCourse q (some step) = .ok { f with marker := some marker } ∧ marker.step = step ∧
          f.content.HasStep step) := by
  rw [timeCourse_marked]
  refine ⟨fun cause fails => ?_, fun f done =>
    ⟨marker_of_unmarked done, fun late => ?_, fun inRange => ?_⟩⟩
  · rw [fails]
    rfl
  · rw [done]
    simp only [bind, Except.bind, markerAt_of_late late]
    rfl
  · obtain ⟨marker, placed, here⟩ := markerAt_of_inRange q f.content inRange
    refine ⟨marker, ?_, here, (hasSteps_of_timeCourse done).hasStep inRange⟩
    rw [done]
    simp only [bind, Except.bind, placed]
    rfl

theorem markers_stay_inside_boxes :
    (boxes.timeCourse { secondAxis with selection := .single ⟨3⟩ } (some 5) =
      .error (.undefinedAxis ⟨3⟩ 3)) ∧
    (boxes.timeCourse secondAxis (some 2) = .error (.stepOutOfRange 2 2)) ∧
    ∃ f marker, boxes.timeCourse { secondAxis with style := .surface } none = .ok f ∧
      boxes.timeCourse { secondAxis with style := .surface } (some 1) =
        .ok { f with marker := some marker } ∧ marker.step = 1 ∧ f.content.HasStep 1 := by
  refine ⟨?_, ?_, ?_⟩
  · exact (markers_stay_inside boxes { secondAxis with selection := .single ⟨3⟩ } 5).1 _ rfl
  · have made : (boxes.timeCourse secondAxis none).map (·.mode) = .ok .timeCourse := by
      decide +kernel
    obtain ⟨f, done, _⟩ := map_eq_ok made
    exact ((markers_stay_inside boxes secondAxis 2).2 f done).2.1 (by decide)
  · have made : (boxes.timeCourse { secondAxis with style := .surface } none).map (·.mode) =
        .ok .timeCourse := by
      decide +kernel
    obtain ⟨f, done, _⟩ := map_eq_ok made
    obtain ⟨marker, marked, here, has⟩ :=
      ((markers_stay_inside boxes { secondAxis with style := .surface } 1).2 f done).2.2 (by decide)
    exact ⟨f, marker, done, marked, here, has⟩

end Recording
end FieldPlot
