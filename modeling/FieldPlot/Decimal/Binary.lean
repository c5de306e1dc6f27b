/-!
The exact value of a binary64 number. A finite one is `± mantissa · 2 ^ exponent`, which makes
rounding to whole numbers and printing exact arithmetic on naturals.
-/
namespace FieldPlot.Decimal

/-- The magnitude of a finite number: `mantissa · 2 ^ exponent`. -/
structure Binary where
  mantissa : Nat
  exponent : Int
  /-- Just above a power of two the next number below is only half as far as the next above. -/
  narrowBelow : Bool
deriving DecidableEq, Repr

/-- Whether the sign is minus; zeros have a sign as well. -/
def isNegative (x : Float) : Bool :=
  x.toBits.toNat / Nat.pow 2 63 == 1

def Binary.ofFloat (x : Float) : Binary :=
  let bits := x.toBits.toNat
  let fraction : Nat := bits % Nat.pow 2 52
  let scale : Nat := bits / Nat.pow 2 52 % Nat.pow 2 11
  if scale = 0 then ⟨fraction, -1074, false⟩
  else ⟨Nat.pow 2 52 + fraction, (scale : Int) - 1075, fraction == 0 && scale != 1⟩

def Binary.floor (b : Binary) : Nat :=
  b.mantissa * Nat.pow 2 b.exponent.toNat / Nat.pow 2 (-b.exponent).toNat

def Binary.ceil (b : Binary) : Nat :=
  (b.mantissa * Nat.pow 2 b.exponent.toNat + Nat.pow 2 (-b.exponent).toNat - 1) /
    Nat.pow 2 (-b.exponent).toNat

/-- The nearest whole number; a half goes up. -/
def Binary.nearest (b : Binary) : Nat :=
  (2 * (b.mantissa * Nat.pow 2 b.exponent.toNat) + Nat.pow 2 (-b.exponent).toNat) /
    (2 * Nat.pow 2 (-b.exponent).toNat)

/-- The nearest natural number up to `bound`, a half going up. Every number below one half and a
    number that is none give zero, and numbers above the bound give the bound. -/
def nearestNat (bound : Nat) (x : Float) : Nat :=
  if x.isNaN then 0
  else if isNegative x then 0
  else if x.isInf then bound
  else min (Binary.ofFloat x).nearest bound

/-- The largest whole number that is not above, cut to `-bound .. bound`; zero for no number. -/
def floorWithin (bound : Nat) (x : Float) : Int :=
  if x.isNaN then 0
  else if isNegative x then
    if x.isInf then -bound else -(min (Binary.ofFloat x).ceil bound : Nat)
  else
    if x.isInf then bound else (min (Binary.ofFloat x).floor bound : Nat)

def ceilWithin (bound : Nat) (x : Float) : Int :=
  if x.isNaN then 0
  else if isNegative x then
    if x.isInf then -bound else -(min (Binary.ofFloat x).floor bound : Nat)
  else
    if x.isInf then bound else (min (Binary.ofFloat x).ceil bound : Nat)

end FieldPlot.Decimal
