import FieldPlot.Colour
import FieldPlot.Grid
import FieldPlot.Header

/-!
Frames as images. The first two extents are width and height; the raster of the frame, row by row, is
turned a quarter counter-clockwise, so the picture has a row for each column of the frame. A frame
with three values for each pixel holds blue, green and red in this order.
-/
namespace FieldPlot

inductive Image where
  | grey (pixels : Grid Float)
  | coloured (pixels : Grid Colour)

namespace Image

def size : Image → Nat × Nat
  | grey g => (g.height, g.columns)
  | coloured g => (g.height, g.columns)

/-- The level of a channel: the whole part of a value cut to `0 .. 255`, zero for no number. -/
def byte (v : Float) : UInt8 :=
  v.toUInt8

/-- A quarter turn counter-clockwise: the last column becomes the first row. -/
def quarterTurn {α : Type} [Inhabited α] (raster : Grid α) : Grid α :=
  raster.mirrored.transposed

def greyOf (width height : Nat) (values : Array Float) : Grid Float :=
  quarterTurn (Grid.ofFn height width fun y x => values.getD (y * width + x) 0)

def colouredOf (width height : Nat) (values : Array Float) : Grid Colour :=
  quarterTurn (Grid.ofFn height width fun y x =>
    let channel (k : Nat) := byte (values.getD ((y * width + x) * 3 + (2 - k)) 0)
    ⟨channel 0, channel 1, channel 2⟩)

def extents (h : Header) : Nat × Nat :=
  match h.extents with
  | width :: height :: _ => (width, height)
  | width :: [] => (width, 0)
  | [] => (0, 0)

/-- The image that a frame holds: it has one value or three for each of at least one pixel. -/
def decode (h : Header) (frame : List Float) : Except Error Image :=
  let (width, height) := extents h
  let refused := Error.notAnImage frame.length width height
  match Word.mul? width height with
  | none => .error refused
  | some pixels =>
    if pixels = 0 then .error refused
    else if Word.mul? pixels 3 = some frame.length then
      .ok (coloured (colouredOf width height frame.toArray))
    else if frame.length = pixels then .ok (grey (greyOf width height frame.toArray))
    else .error refused

end Image
end FieldPlot
