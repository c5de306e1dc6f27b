import FieldPlot.Aggregation
import FieldPlot.Bounds
import FieldPlot.Figure.Style
import FieldPlot.Image
import FieldPlot.Marker
import FieldPlot.Selection

/-!
Figures: the data to be shown, where it comes from and how it is to look.
-/
namespace FieldPlot

inductive Mode where
  | snapshot
  | timeCourse
  | sequence
deriving DecidableEq, Repr

namespace Mode

def name : Mode → String
  | snapshot => "snapshot"
  | timeCourse => "time course"
  | sequence => "snapshot sequence"

def slug : Mode → String
  | snapshot => "snapshot"
  | timeCourse => "time_course"
  | sequence => "snapshot_sequence"

end Mode

inductive Content where
  | line (values : List Float)
  | grid (cells : Grid Float)
  | image (picture : Image)

namespace Content

def values : Content → List Float
  | line values => values
  | grid cells => cells.values
  | image (.grey pixels) => pixels.values
  | image (.coloured pixels) =>
    pixels.values.flatMap fun p => [p.red.toFloat, p.green.toFloat, p.blue.toFloat]

def range (c : Content) : Option (Float × Float) :=
  Bounds.finite c.values

def columns : Content → Nat
  | line _ => 1
  | grid cells => cells.columns
  | image picture => picture.size.2

end Content

structure Figure where
  title : Option String
  mode : Mode
  style : Style
  step : Option Nat
  selection : Selection
  method : Aggregation
  /-- The axis along the rows of a grid, where they are not steps. -/
  rowAxis : Option Axis
  /-- The axis along the columns of a grid or along a line. -/
  columnAxis : Option Axis
  content : Content
  labels : Labels
  colourRange : Option (Float × Float)
  marker : Option Marker
  appearance : Appearance

namespace Figure

def colourBarLabel (f : Figure) : Option String :=
  if f.style = .heatmap then f.labels.z else none

/-- Whether the vertical axis points down: so it does in sequences of all plots of a grid. -/
def pointsDown (f : Figure) : Bool :=
  f.mode == .sequence && (f.style == .heatmap || f.style == .surface || f.style == .wireframe)

end Figure
end FieldPlot
