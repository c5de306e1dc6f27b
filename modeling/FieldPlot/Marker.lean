import FieldPlot.Decimal.Binary
import FieldPlot.Figure.Style
import FieldPlot.Word

/-!
The marker of one step in a time course: a line, or in plots with three axes a plane.
-/
namespace FieldPlot

inductive Marker where
  | line (step : Nat) (colour : String)
  /-- The outline is a list of positions with their values. -/
  | plane (step : Nat) (outline : List (Float × Float)) (colour : String) (opacity : Float)
deriving DecidableEq

namespace Marker

def step : Marker → Nat
  | line step _ => step
  | plane step _ _ _ => step

def opacity : Float := 0.25

def spacing : Float := 0.1

/-- The outline runs along the least value, with both ends raised to the greatest. -/
def outline (columns : Nat) (range : Float × Float) : List (Float × Float) :=
  let points := Decimal.nearestNat Word.limit (Float.ofNat columns / spacing)
  (List.range points).map fun i =>
    (Float.ofNat i * spacing, if i = 0 ∨ i + 1 = points then range.2 else range.1)

def ofStep (step : Nat) (style : Style) (columns : Nat) (range : Float × Float) (colour : String) :
    Marker :=
  if style.isSpatial then plane step (outline columns range) colour opacity else line step colour

end Marker
end FieldPlot
