import FieldPlot.Error
import FieldPlot.Tensor
import FieldPlot.Text.Blank

/-!
How an axis that vanishes is summed up: sum, average or maximum of each lane. The rules are stated
for any type of values; `Aggregation.rule` takes them to binary64 numbers, whose sums depend on the
order of additions. A lane along the last axis is summed in eight interleaved parts, which are then
added up in pairs; any other lane is summed from its first value to its last.
-/
namespace FieldPlot

namespace LaneRule

variable {α : Type}

/-- Eight parts take turns while eight values are left; then the parts are added up, and the values
    that are left behind them. -/
def partedSum [Add α] [OfNat α 0] (p0 p1 p2 p3 p4 p5 p6 p7 : α) : List α → α
  | a :: b :: c :: d :: e :: f :: g :: h :: rest =>
    partedSum (p0 + a) (p1 + b) (p2 + c) (p3 + d) (p4 + e) (p5 + f) (p6 + g) (p7 + h) rest
  | rest => rest.foldl (· + ·) (0 + (p0 + p4) + (p1 + p5) + (p2 + p6) + (p3 + p7))

def sum [Add α] [OfNat α 0] : LaneRule α
  | true, lane => partedSum 0 0 0 0 0 0 0 0 lane
  | false, lane => lane.foldl (· + ·) 0

def average [Add α] [OfNat α 0] [Div α] (ofCount : Nat → α) : LaneRule α :=
  fun contiguous lane => sum contiguous lane / ofCount lane.length

/-- The larger of two values. One that is no number stays; of two equal values the first stays. -/
def larger [LE α] [DecidableLE α] (isNone : α → Bool) (a b : α) : α :=
  if isNone a ∨ b ≤ a then a else b

def maximum [LE α] [DecidableLE α] (isNone : α → Bool) (least : α) : LaneRule α :=
  fun _ lane => lane.foldl (larger isNone) least

end LaneRule

inductive Aggregation where
  | sum
  | average
  | maximum
deriving DecidableEq, Repr

namespace Aggregation

def name : Aggregation → String
  | sum => "sum"
  | average => "average"
  | maximum => "maximum"

def standard : Aggregation := average

def read (s : String) : Except Error Aggregation :=
  match Text.keyword s with
  | "sum" => .ok sum
  | "average" => .ok average
  | "maximum" => .ok maximum
  | _ => .error (.unknownAggregation s)

def rule : Aggregation → LaneRule Float
  | sum => LaneRule.sum
  | average => LaneRule.average Float.ofNat
  | maximum => LaneRule.maximum Float.isNaN (-(1 / 0))

end Aggregation
end FieldPlot
