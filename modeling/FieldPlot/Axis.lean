import FieldPlot.Word
import FieldPlot.Text.Numeral

/-!
Axes of recorded data. An axis counts from zero; its label counts from one: `x_1` is the first axis
that a header declares.
-/
namespace FieldPlot

structure Axis where
  index : Nat
deriving DecidableEq, Repr

namespace Axis

def number (a : Axis) : Nat :=
  a.index + 1

def label (a : Axis) : List Char :=
  'x' :: '_' :: Text.Numeral.write a.number

/-- The axis with this label: `x_` and a number from one up. -/
def ofLabel? : List Char → Option Axis
  | 'x' :: '_' :: digits =>
    match Text.Numeral.read 10 Word.limit digits with
    | .ok (n + 1) => some ⟨n⟩
    | _ => none
  | _ => none

def text (a : Axis) : String :=
  String.ofList a.label

end Axis
end FieldPlot
