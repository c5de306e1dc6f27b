import FieldPlot.Decimal.Shortest
import FieldPlot.Figure
import FieldPlot.Table.Row

/-!
The data of a figure as a table: a row with position and value for each point of a line, a row of
values for each row of a grid or a grey image, a row of colours for each row of a colour image.
-/
namespace FieldPlot.Figure

def rows (f : Figure) : List (List (List Char)) :=
  match f.content with
  | .line values => values.zipIdx.map fun (v, i) => [Text.Numeral.write i, Decimal.write v]
  | .grid cells => cells.rows.map fun row => row.map Decimal.write
  | .image (.grey pixels) => pixels.rows.map fun row => row.map Decimal.write
  | .image (.coloured pixels) => pixels.rows.map fun row => row.map Colour.write

def table (f : Figure) : List Char :=
  Table.write f.rows

def tableText (f : Figure) : String :=
  String.ofList f.table

end FieldPlot.Figure
