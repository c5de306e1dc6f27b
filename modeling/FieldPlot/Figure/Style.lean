import FieldPlot.Error
import FieldPlot.Text.Blank

/-!
How figures look: the kind of plot, the style of lines and the settings that go with them. Names are
read as keywords, so blanks around them and the case of letters do not count.
-/
namespace FieldPlot

inductive Style where
  | line
  | wireframe
  | surface
  | heatmap
  | image
deriving DecidableEq, Repr

namespace Style

def name : Style → String
  | line => "line"
  | wireframe => "wireframe"
  | surface => "surface"
  | heatmap => "heatmap"
  | image => "image"

def isSpatial (s : Style) : Bool :=
  s == wireframe || s == surface

/-- Without a name it is a line plot. -/
def read (s : String) : Except Error Style :=
  match Text.keyword s with
  | "" => .ok line
  | "line" => .ok line
  | "wireframe" => .ok wireframe
  | "surface" => .ok surface
  | "heatmap" => .ok heatmap
  | "image" => .ok image
  | other => .error (.setting (.unknownStyle other))

end Style

inductive LineStyle where
  | solid
  | dashed
  | dotted
  | dashDot
deriving DecidableEq, Repr

namespace LineStyle

def name : LineStyle → String
  | solid => "solid"
  | dashed => "dashed"
  | dotted => "dotted"
  | dashDot => "dash dot"

def read (s : String) : Except Error LineStyle :=
  match Text.keyword s with
  | "solid" => .ok solid
  | "-" => .ok solid
  | "dashed" => .ok dashed
  | "--" => .ok dashed
  | "dotted" => .ok dotted
  | ":" => .ok dotted
  | "dash dot" => .ok dashDot
  | "dashdot" => .ok dashDot
  | "-." => .ok dashDot
  | other => .error (.setting (.unknownLineStyle other))

end LineStyle

structure Appearance where
  /-- Every how many rows and columns a wireframe or a surface has a line. -/
  stride : Nat := 1
  edgeWidth : Float := 0
  lineStyle : LineStyle := .solid
  colour : String := "#FF9600"
  markerColour : String := "#FF9600"
  /-- The lower end of the colour range, if it is not the least value. -/
  low : Option Float := none
  /-- The upper end of the colour range, if it is not the greatest value. -/
  high : Option Float := none
deriving DecidableEq

/-- The texts on the axes; the last is on the colour bar of a heatmap. -/
structure Labels where
  x : Option String := none
  y : Option String := none
  z : Option String := none
deriving DecidableEq, Repr

end FieldPlot
