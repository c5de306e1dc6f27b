import FieldPlot.Drawing.Scale
import FieldPlot.Figure

/-!
Drawings of figures. A line is drawn as a path; grids and images are drawn as coloured cells, with
rows from left to right and columns upwards. A marked step is a second path from foot to head.
-/
namespace FieldPlot

namespace Drawing

structure Cell where
  x : Int
  y : Int
  width : Int
  height : Int
  fill : Colour
deriving DecidableEq, Repr

structure Path where
  stroke : Colour
  width : Nat
  points : List (Int × Int)
deriving DecidableEq, Repr

def sheetWidth : Nat := 800

def sheetHeight : Nat := 600

end Drawing

structure Drawing where
  caption : String
  xText : String
  yText : String
  cells : List Drawing.Cell
  /-- The line of the data before that of the marker. -/
  paths : List Drawing.Path
deriving DecidableEq, Repr

namespace Drawing

def escapeCharacter : Char → List Char
  | '&' => ['&', 'a', 'm', 'p', ';']
  | '<' => ['&', 'l', 't', ';']
  | '>' => ['&', 'g', 't', ';']
  | '"' => ['&', 'q', 'u', 'o', 't', ';']
  | '\'' => ['&', 'a', 'p', 'o', 's', ';']
  | c => [c]

def escape (s : String) : String :=
  String.ofList (s.toList.flatMap escapeCharacter)

/-- The range of values up the plot of a line. Constant data gets half a unit on both sides. -/
def lineRange : Option (Float × Float) → Float × Float
  | none => (0, 1)
  | some (low, high) => if low < high then (low, high) else (low - 0.5, low + 0.5)

def colourOr (s : String) : Colour :=
  (Colour.read s.toList).getD .standard

def dataPath (x y : Scale) (stroke : Colour) (values : List Float) : Option Path :=
  let points := (values.zipIdx.filter fun (v, _) => v.isFinite).map fun (v, i) =>
    (x.pixel (Float.ofNat i), y.pixel v)
  if points = [] then none else some ⟨stroke, 2, points⟩

def markerPath (x y : Scale) (stroke : Colour) (place : Float) : Path :=
  ⟨stroke, 1, [(x.pixel place, y.pixel y.low), (x.pixel place, y.pixel y.high)]⟩

def cellAt (x y : Scale) (row column : Nat) (fill : Colour) : Cell :=
  let left := x.pixel (Float.ofNat row)
  let foot := y.pixel (Float.ofNat column)
  let right := x.pixel (Float.ofNat row + 1)
  let head := y.pixel (Float.ofNat column + 1)
  ⟨left, head, right - left, foot - head, fill⟩

def cellsOf (x y : Scale) (colours : Grid Colour) : List Cell :=
  colours.rows.zipIdx.flatMap fun (row, r) => row.zipIdx.map fun (fill, c) => cellAt x y r c fill

end Drawing

namespace Figure

def caption (f : Figure) : String :=
  match f.title, f.step with
  | some title, _ => title
  | none, some step => s!"{f.mode.name} (step {step})"
  | none, none => f.mode.name

def drawnRange (f : Figure) : Float × Float :=
  (f.colourRange.orElse fun _ => f.content.range).getD (0, 1)

def markerColour (f : Figure) : Colour :=
  Drawing.colourOr f.appearance.markerColour

def sheet (f : Figure) (cells : List Drawing.Cell) (paths : List Drawing.Path) : Drawing :=
  ⟨Drawing.escape f.caption, Drawing.escape (f.labels.x.getD ""),
    Drawing.escape (f.labels.y.getD ""), cells, paths⟩

def drawLine (f : Figure) (values : List Float) : Drawing :=
  let (low, high) := Drawing.lineRange (Bounds.finite values)
  let x := Drawing.Scale.across (Float.ofNat (max (values.length - 1) 1))
  let y := Drawing.Scale.up low high
  let data := Drawing.dataPath x y (Drawing.colourOr f.appearance.colour) values
  let marker := f.marker.map fun m => Drawing.markerPath x y f.markerColour (Float.ofNat m.step)
  f.sheet [] (data.toList ++ marker.toList)

/-- The marker of a row stands in its middle. -/
def drawCells (f : Figure) (colours : Grid Colour) : Drawing :=
  let x := Drawing.Scale.across (Float.ofNat (max colours.height 1))
  let y := Drawing.Scale.up 0 (Float.ofNat (max colours.columns 1))
  let marker := f.marker.map fun m =>
    Drawing.markerPath x y f.markerColour (Float.ofNat m.step + 0.5)
  f.sheet (Drawing.cellsOf x y colours) marker.toList

def drawing (f : Figure) : Drawing :=
  match f.content with
  | .line values => f.drawLine values
  | .grid cells => f.drawCells (cells.map (Colour.ofValue f.drawnRange))
  | .image (.grey pixels) => f.drawCells (pixels.map (Colour.ofGrey f.drawnRange))
  | .image (.coloured pixels) => f.drawCells pixels

end Figure
end FieldPlot
