import FieldPlot.Drawing

/-!
Drawings as SVG text: the sheet, the cells, the lines and the texts, in this order.
-/
namespace FieldPlot.Drawing

def property (name value : String) : String :=
  " " ++ name ++ "=\"" ++ value ++ "\""

def vocabulary : String :=
  "/".intercalate ["http:", "", "www.w3.org", "2000", "svg"]

def colourText (c : Colour) : String :=
  String.ofList c.writeCapital

def rectangle (x y width height : Int) (fill : Colour) : String :=
  "<rect" ++ property "x" (toString x) ++ property "y" (toString y) ++
    property "width" (toString width) ++ property "height" (toString height) ++
    property "opacity" "1" ++ property "fill" (colourText fill) ++ property "stroke" "none" ++
    "/>\n"

def polyline (p : Path) : String :=
  let points := " ".intercalate (p.points.map fun (x, y) => toString x ++ "," ++ toString y)
  "<polyline" ++ property "fill" "none" ++ property "opacity" "1" ++
    property "stroke" (colourText p.stroke) ++ property "stroke-width" (toString p.width) ++
    property "points" points ++ "/>\n"

/-- A text that is already escaped; an empty one is left out. -/
def label (x y : Nat) (text : String) : String :=
  if text = "" then ""
  else
    "<text" ++ property "x" (toString x) ++ property "y" (toString y) ++
      property "text-anchor" "middle" ++ property "font-family" "sans-serif" ++
      property "font-size" "20" ++ ">\n" ++ text ++ "\n</text>\n"

def view : String :=
  " ".intercalate ["0", "0", toString sheetWidth, toString sheetHeight]

def markup (d : Drawing) : String :=
  "<svg" ++ property "width" (toString sheetWidth) ++ property "height" (toString sheetHeight) ++
    property "viewBox" view ++ property "xmlns" vocabulary ++ ">\n" ++
    rectangle 0 0 sheetWidth sheetHeight .white ++
    String.join (d.cells.map fun c => rectangle c.x c.y c.width c.height c.fill) ++
    String.join (d.paths.map polyline) ++
    label 400 25 d.caption ++ label 425 595 d.xText ++ label 20 300 d.yText ++ "</svg>\n"

end FieldPlot.Drawing
