/-!
The range of a list of values. Only finite numbers count, and a list without any has no range.
-/
namespace FieldPlot.Bounds

/-- A range widened to a further value. Of two equal bounds, such as the two zeros, the
    later counts. -/
def widen {α : Type} [LT α] [DecidableLT α] : Option (α × α) → α → Option (α × α)
  | none, v => some (v, v)
  | some (low, high), v => some (if low < v then low else v, if v < high then high else v)

def of {α : Type} [LT α] [DecidableLT α] (values : List α) : Option (α × α) :=
  values.foldl widen none

def finite (values : List Float) : Option (Float × Float) :=
  of (values.filter Float.isFinite)

end FieldPlot.Bounds
