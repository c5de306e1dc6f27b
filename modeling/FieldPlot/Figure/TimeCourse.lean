import FieldPlot.Figure.Request
import FieldPlot.Projection
import FieldPlot.Recording

/-!
Time courses: the figure of all steps of a recording, in which one step may be marked.
-/
namespace FieldPlot.Recording

def frameRows (h : Header) (frames : List (List Float)) : Except Error (Grid Float) := do
  Grid.allocate frames.length (h.extents.getD 0 0)
  frames.forM fun frame => h.checkLength frame.length
  match Grid.ofRows? (h.extents.getD 0 0) frames with
  | some grid => return grid
  | none => throw (.projection .leftoverAxes)

def courseLayout (r : Recording) (q : Request) : Except Error Layout :=
  match r.rank, q.selection with
  | 0, _ => .ok { content := .line r.series }
  | 1, _ => do
    return { content := .grid (← frameRows r.header r.frames), columnAxis := some ⟨0⟩ }
  | _, .single axis => do
    let grid ← Projection.onAxis q.method.rule r.header r.frames axis
    return { content := .grid grid, columnAxis := some axis }
  | _, .pair _ _ => .error (.projection .planeOverTime)
  | rank, .unprojected => .error (.projectionRequired rank)

def markerAt (r : Recording) (q : Request) (content : Content) (step : Nat) :
    Except Error Marker :=
  if step < r.steps then
    .ok (Marker.ofStep step q.style content.columns (content.range.getD (0, 0))
      q.appearance.markerColour)
  else .error (.stepOutOfRange step r.steps)

def timeCourse (r : Recording) (q : Request) (marked : Option Nat) : Except Error Figure := do
  if q.style = .image then throw (.setting .imageOverTime)
  let layout ← r.courseLayout q
  let marker ← marked.mapM (r.markerAt q layout.content)
  return { q.figure .timeCourse none layout with marker := marker }

end FieldPlot.Recording
