/-!
Counts of 64 bits. Extents, lengths and step numbers are natural numbers up to `Word.limit`;
a product or a sum that leaves this range is refused, is clamped or stops the program, and each use
says which.
-/
namespace FieldPlot.Word

/-- The largest count that 64 bits hold. -/
def limit : Nat := 18446744073709551615

def mul? (a b : Nat) : Option Nat :=
  if a * b ≤ limit then some (a * b) else none

def mulClamped (a b : Nat) : Nat :=
  min (a * b) limit

def add? (a b : Nat) : Option Nat :=
  if a + b ≤ limit then some (a + b) else none

/-- The factors are multiplied from the left, and the first product out of range ends it. -/
def product? (start : Nat) (factors : List Nat) : Option Nat :=
  factors.foldlM mul? start

/-- The clamped product; a factor zero brings it back into the range. -/
def productClamped (factors : List Nat) : Nat :=
  factors.foldl mulClamped 1

def arrayLimit : Nat := 9223372036854775807

/-- Whether an array of this shape can be addressed: axes of extent zero do not count. -/
def Addressable (shape : List Nat) : Prop :=
  (shape.filter (· != 0)).foldl (· * ·) 1 ≤ arrayLimit

instance (shape : List Nat) : Decidable (Addressable shape) :=
  inferInstanceAs (Decidable (_ ≤ _))

end FieldPlot.Word
