import FieldPlot.Aggregation
import FieldPlot.Axis
import FieldPlot.Bounds
import FieldPlot.Colour
import FieldPlot.Command
import FieldPlot.Command.Arguments
import FieldPlot.Command.Setting
import FieldPlot.Decimal.Binary
import FieldPlot.Decimal.Literal
import FieldPlot.Decimal.Shortest
import FieldPlot.Directory
import FieldPlot.Drawing
import FieldPlot.Drawing.Markup
import FieldPlot.Drawing.Scale
import FieldPlot.Error
import FieldPlot.Export
import FieldPlot.Figure
import FieldPlot.Figure.Request
import FieldPlot.Figure.Rows
import FieldPlot.Figure.Snapshot
import FieldPlot.Figure.Style
import FieldPlot.Figure.TimeCourse
import FieldPlot.Grid
import FieldPlot.Header
import FieldPlot.Image
import FieldPlot.Main
import FieldPlot.Marker
import FieldPlot.Path
import FieldPlot.Projection
import FieldPlot.Recording
import FieldPlot.Recording.Reading
import FieldPlot.Selection
import FieldPlot.Selection.Menu
import FieldPlot.Table.Record
import FieldPlot.Table.Row
import FieldPlot.Tensor
import FieldPlot.Tensor.Elimination
import FieldPlot.Text.Blank
import FieldPlot.Text.Numeral
import FieldPlot.Text.Terminal
import FieldPlot.Text.Utf8
import FieldPlot.Word
import FieldPlot.Proofs.Coordinates
import FieldPlot.Proofs.Declared
import FieldPlot.Proofs.Elimination
import FieldPlot.Proofs.Grid
import FieldPlot.Proofs.Length
import FieldPlot.Proofs.Lines
import FieldPlot.Proofs.Maximum
import FieldPlot.Proofs.Multiplication
import FieldPlot.Proofs.Room
import FieldPlot.Proofs.Projection
import FieldPlot.Proofs.Totals
import FieldPlot.Proofs.NumberOrder
import FieldPlot.Proofs.Numerals
import FieldPlot.Proofs.Outcomes
import FieldPlot.Proofs.Peaks
import FieldPlot.Proofs.Lanes
import FieldPlot.Proofs.Reading
import FieldPlot.Proofs.Records
import FieldPlot.Proofs.Beginnings
import FieldPlot.Proofs.Shape
import FieldPlot.Proofs.Stages
import FieldPlot.Proofs.Steps
import FieldPlot.Proofs.Utf8
import FieldPlot.Proofs.Writing
import FieldPlot.Proofs.Places
import FieldPlot.Proofs.Layouts
import FieldPlot.Proofs.Agreement
import FieldPlot.Proofs.Sizes
import FieldPlot.Proofs.Refusals
import FieldPlot.Proofs.Reports
import FieldPlot.Proofs.Sequences
import FieldPlot.Proofs.Cutting
import FieldPlot.Proofs.Paths
import FieldPlot.Proofs.Directories
import FieldPlot.Proofs.Commands
import FieldPlot.Proofs.Offers
import FieldPlot.Proofs.Capacity
import FieldPlot.Proofs.Plottable
import FieldPlot.Proofs.Images
import FieldPlot.Proofs.Marked
import FieldPlot.Proofs.Menus
import FieldPlot.Proofs.Applicable
import FieldPlot.Proofs.Cells
import FieldPlot.Proofs.Tables
import FieldPlot.Proofs.Labels
import FieldPlot.Proofs.Overflow
import FieldPlot.Proofs.Padding
import FieldPlot.Proofs.Turns
import FieldPlot.Proofs.Colours
import FieldPlot.Proofs.Rounding
import FieldPlot.Proofs.Packing
import FieldPlot.Proofs.Arithmetic
import FieldPlot.Proofs.Values
import FieldPlot.Proofs.Nearest
import FieldPlot.Proofs.Differences
import FieldPlot.Proofs.Scales
import FieldPlot.Proofs.Averages
import FieldPlot.Proofs.Names
import FieldPlot.Proofs.Ranges
