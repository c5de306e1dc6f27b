import FieldPlot.Error
import FieldPlot.Text.Blank

/-!
Which axes a projection keeps: none (the data is shown as recorded), one, or two. The text of a
selection is `none`, a label, or two labels with a comma between them.
-/
namespace FieldPlot

namespace Axis

/-- Blanks around a label do not count; a bad label is reported without them. -/
def read (s : List Char) : Except Error Axis :=
  match ofLabel? (Text.trim s) with
  | some a => .ok a
  | none => .error (.badAxisLabel (String.ofList (Text.trim s)))

end Axis

inductive Selection where
  | unprojected
  | single (axis : Axis)
  | pair (first second : Axis)
deriving DecidableEq, Repr

namespace Selection

def axes : Selection → List Axis
  | unprojected => []
  | single a => [a]
  | pair a b => [a, b]

def axisCount (s : Selection) : Nat :=
  s.axes.length

def write : Selection → List Char
  | unprojected => ['n', 'o', 'n', 'e']
  | single a => a.label
  | pair a b => a.label ++ ',' :: ' ' :: b.label

def text (s : Selection) : String :=
  String.ofList s.write

def read (s : List Char) : Except Error Selection := do
  let s := Text.trim s
  if s = [] ∨ Text.lower s = unprojected.write then return unprojected
  match Text.cutAt ',' s with
  | [label] => return single (← Axis.read label)
  | [first, second] => return pair (← Axis.read first) (← Axis.read second)
  | _ => throw (.projection (.tooManyAxes (String.ofList s)))

end Selection
end FieldPlot
