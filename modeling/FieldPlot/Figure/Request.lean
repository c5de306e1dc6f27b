import FieldPlot.Figure

/-!
Requests: what is asked of a figure, whatever recording it is made from. A request turns data whose
axes are known into a figure.
-/
namespace FieldPlot

structure Request where
  style : Style := .line
  selection : Selection := .unprojected
  method : Aggregation := .standard
  labels : Labels := {}
  title : Option String := none
  appearance : Appearance := {}

structure Layout where
  content : Content
  rowAxis : Option Axis := none
  columnAxis : Option Axis := none

namespace Request

/-- The colour range of a heatmap is that of its values, unless its ends are given. -/
def colourRange (q : Request) (content : Content) : Option (Float × Float) :=
  if q.style = .heatmap then
    content.range.map fun (low, high) =>
      (q.appearance.low.getD low, q.appearance.high.getD high)
  else none

def figure (q : Request) (mode : Mode) (step : Option Nat) (layout : Layout) : Figure where
  title := q.title
  mode := mode
  style := q.style
  step := step
  selection := q.selection
  method := q.method
  rowAxis := layout.rowAxis
  columnAxis := layout.columnAxis
  content := layout.content
  labels := q.labels
  colourRange := q.colourRange layout.content
  marker := none
  appearance := q.appearance

end Request

end FieldPlot
