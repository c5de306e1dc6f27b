import FieldPlot.Aggregation
import FieldPlot.Grid
import FieldPlot.Header
import FieldPlot.Tensor.Elimination

/-!
Projections of frames. `onAxis` keeps one axis of every frame and gives a grid with a row for each
step; `onPlane` keeps two axes of one frame and gives a grid with the axis declared later along its
rows. Both take the rule by which the other axes collapse.
-/
namespace FieldPlot

namespace Header

def resolve (h : Header) (axis : Axis) : Except Error Nat :=
  if axis.index < h.rank then .ok axis.index else .error (.undefinedAxis axis h.rank)

/-- Where a declared axis is in the array of a frame, which has the last declared axis first. -/
def arrayPosition (h : Header) (axis : Nat) : Nat :=
  h.rank - 1 - axis

def tensor {α : Type} [Inhabited α] (h : Header) (frame : List α) : Except Error (Tensor α) := do
  h.checkLength frame.length
  if Word.Addressable h.arrayShape then return Tensor.ofValues h.arrayShape frame
  throw (.projection .unaddressable)

end Header

def Grid.allocate (height columns : Nat) : Except Error Unit :=
  if Word.Addressable [height, columns] then .ok () else .error (.halt .array)

structure Plane (α : Type) where
  rowAxis : Axis
  columnAxis : Axis
  grid : Grid α

namespace Projection

variable {α : Type} [Inhabited α]

def profile (rule : LaneRule α) (h : Header) (axis : Nat) (frame : List α) :
    Except Error (List α) := do
  let array ← h.tensor frame
  match (array.keep rule [h.arrayPosition axis]).tensor.line? with
  | some row => return row
  | none => throw (.projection .leftoverAxes)

/-- Every frame projected onto an axis. Without frames the grid still has a column for each position
    on the axis. -/
def onAxis (rule : LaneRule α) (h : Header) (frames : List (List α)) (axis : Axis) :
    Except Error (Grid α) := do
  let k ← h.resolve axis
  -- There is no grid for the rows before the first frame is laid out.
  (frames.take 1).forM fun frame => discard (h.tensor frame)
  Grid.allocate frames.length (h.extents.getD k 0)
  let rows ← frames.mapM (profile rule h k)
  match Grid.ofRows? (h.extents.getD k 0) rows with
  | some grid => return grid
  | none => throw (.projection .leftoverAxes)

/-- The grid of a tensor with two axes; the kept axis that comes first there is along the rows. -/
def planeOf (first second : Axis) (left : Elimination α) : Except Error (Plane α) :=
  match left.tensor.shape, left.kept with
  | [height, columns], [p, q] =>
    let grid := Grid.ofFn height columns fun r c => left.tensor.cell [r, c]
    if p < q then .ok ⟨first, second, grid⟩ else .ok ⟨second, first, grid⟩
  | _, _ => .error (.projection .leftoverAxes)

def onPlane (rule : LaneRule α) (h : Header) (frames : List (List α)) (step : Nat)
    (first second : Axis) : Except Error (Plane α) := do
  if h.rank < 2 then throw (.projection (.tooFewAxes h.rank))
  if first = second then throw (.projection (.repeatedAxis first))
  let a ← h.resolve first
  let b ← h.resolve second
  match frames[step]? with
  | none => throw (.stepOutOfRange step frames.length)
  | some frame =>
    let array ← h.tensor frame
    planeOf first second (array.keep rule [h.arrayPosition a, h.arrayPosition b])

end Projection
end FieldPlot
