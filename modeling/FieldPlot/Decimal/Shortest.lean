import FieldPlot.Decimal.Binary

/-!
The text of a number: the fewest decimal digits that read back as it, the nearest such digits where
there are several, written without an exponent. `Binary.readsBack` is the test that the search uses:
a decimal reads back as a number if it lies between the middles to its neighbours, where the middles
themselves belong to the number with the even mantissa.
-/
namespace FieldPlot.Decimal

/-- `digits · 10 ^ exponent` -/
structure Scaled where
  digits : Nat
  exponent : Int
deriving DecidableEq, Repr

/-- `a · 10 ^ i` against `b · 2 ^ j`. -/
def compareScaled (a : Nat) (i : Int) (b : Nat) (j : Int) : Ordering :=
  compare (a * Nat.pow 10 i.toNat * Nat.pow 2 (-j).toNat)
    (b * Nat.pow 2 j.toNat * Nat.pow 10 (-i).toNat)

def Binary.readsBack (b : Binary) (d : Scaled) : Bool :=
  let low := if b.narrowBelow then 4 * b.mantissa - 1 else 4 * b.mantissa - 2
  let high := 4 * b.mantissa + 2
  let closed := b.mantissa % 2 == 0
  let below := compareScaled d.digits d.exponent low (b.exponent - 2)
  let above := compareScaled d.digits d.exponent high (b.exponent - 2)
  (below == .gt || (closed && below == .eq)) && (above == .lt || (closed && above == .eq))

def Binary.quotient (b : Binary) : Nat × Nat :=
  (b.mantissa * Nat.pow 2 b.exponent.toNat, Nat.pow 2 (-b.exponent).toNat)

/-- The power of ten just above a positive quotient: `num / den < 10 ^ k`, and no smaller `k` does.
    The number of digits of both parts misses it by one at most. -/
def decimalScale (num den : Nat) : Int :=
  let guess : Int := (Nat.toDigits 10 num).length - (Nat.toDigits 10 den).length
  if num * Nat.pow 10 (-guess).toNat < den * Nat.pow 10 guess.toNat then guess else guess + 1

/-- Of the multiples of `10 ^ exponent` on both sides of the number, the nearer one that reads back.
    Of two equally near the larger is taken. -/
def Binary.onGrid (b : Binary) (exponent : Int) : Option Scaled :=
  let (num, den) := b.quotient
  let n := num * Nat.pow 10 (-exponent).toNat
  let d := den * Nat.pow 10 exponent.toNat
  let down : Scaled := ⟨n / d, exponent⟩
  let up : Scaled := ⟨n / d + 1, exponent⟩
  match b.readsBack down, b.readsBack up with
  | true, true => some (if 2 * n < (2 * down.digits + 1) * d then down else up)
  | true, false => some down
  | false, true => some up
  | false, false => none

def Binary.exact (b : Binary) : Scaled :=
  ⟨b.mantissa * Nat.pow 2 b.exponent.toNat * Nat.pow 5 (-b.exponent).toNat, min b.exponent 0⟩

/-- The fewest digits of a positive number; seventeen always suffice. -/
def Binary.shortest (b : Binary) : Scaled :=
  let (num, den) := b.quotient
  let scale := decimalScale num den
  ((List.range 17).findSome? fun (n : Nat) => b.onGrid (scale - (n + 1))).getD b.exact

def Scaled.layout (d : Scaled) : List Char :=
  let digits := Nat.toDigits 10 d.digits
  if 0 ≤ d.exponent then digits ++ List.replicate d.exponent.toNat '0'
  else
    let places := (-d.exponent).toNat
    let padded := List.replicate (places + 1 - digits.length) '0' ++ digits
    let whole := padded.take (padded.length - places)
    let fraction := (padded.drop (padded.length - places)).reverse.dropWhile (· == '0') |>.reverse
    if fraction = [] then whole else whole ++ '.' :: fraction

def write (x : Float) : List Char :=
  if x.isNaN then ['N', 'a', 'N']
  else
    let sign := if isNegative x then ['-'] else []
    if x.isInf then sign ++ ['i', 'n', 'f']
    else
      let b := Binary.ofFloat x
      if b.mantissa = 0 then sign ++ ['0'] else sign ++ b.shortest.layout

def text (x : Float) : String :=
  String.ofList (write x)

end FieldPlot.Decimal
