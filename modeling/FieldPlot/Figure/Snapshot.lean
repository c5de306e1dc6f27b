import FieldPlot.Figure.Request
import FieldPlot.Projection
import FieldPlot.Recording

/-!
Snapshots: the figure of one step of a recording, and sequences of such figures.
-/
namespace FieldPlot

namespace Recording

/-- A frame with two axes as it was recorded: the second axis along the rows. -/
def plainGrid (h : Header) (frame : List Float) : Except Error (Grid Float) := do
  let array ← h.tensor frame
  return Grid.ofFn (h.extents.getD 1 0) (h.extents.getD 0 0) fun r c => array.cell [r, c]

def snapshotLayout (r : Recording) (q : Request) (step : Nat) (frame : List Float) :
    Except Error Layout :=
  match r.rank, q.selection with
  | 0, _ => .ok { content := .line frame }
  | 1, _ => .ok { content := .line frame, columnAxis := some ⟨0⟩ }
  | _, .pair first second => do
    let plane ← Projection.onPlane q.method.rule r.header r.frames step first second
    return ⟨.grid plane.grid, some plane.rowAxis, some plane.columnAxis⟩
  | _, .single axis => do
    let grid ← Projection.onAxis q.method.rule r.header [frame] axis
    return { content := .line grid.values, columnAxis := some axis }
  | 2, .unprojected => do
    return ⟨.grid (← plainGrid r.header frame), some ⟨1⟩, some ⟨0⟩⟩
  | rank, .unprojected => .error (.projectionRequired rank)

def snapshotIn (r : Recording) (mode : Mode) (q : Request) (step : Nat) : Except Error Figure := do
  let frame ← r.frame step
  let layout ←
    if q.style = .image then
      (Image.decode r.header frame).map fun picture => { content := .image picture }
    else r.snapshotLayout q step frame
  return q.figure mode (some step) layout

def snapshot (r : Recording) (q : Request) (step : Nat) : Except Error Figure :=
  r.snapshotIn .snapshot q step

/-- The step at a place in a sequence. A product or a sum that is no count of 64 bits stops the
    program. -/
def sequenceStep (start stride place : Nat) : Except Error Nat :=
  match Word.mul? place stride with
  | none => .error (.halt .product)
  | some distance =>
    match Word.add? start distance with
    | none => .error (.halt .sum)
    | some step => .ok step

def visit (r : Recording) (q : Request) (start stride place : Nat) : Except Error Figure := do
  r.snapshotIn .sequence q (← sequenceStep start stride place)

def sequenceFrom (r : Recording) (q : Request) (start stride : Nat) :
    Nat → Nat → Except Error (List Figure)
  | 0, _ => .ok []
  | count + 1, place => do
    let here ← r.visit q start stride place
    let further ← sequenceFrom r q start stride count (place + 1)
    return here :: further

def sequence (r : Recording) (q : Request) (start stride count : Nat) :
    Except Error (List Figure) :=
  sequenceFrom r q start stride count 0

end Recording
end FieldPlot
