/-!
Decimal literals: an optional sign before `inf`, `infinity`, `nan` (in any case) or before digits
with an optional point and an optional exponent. `Literal.value` is the number nearest to it.
-/
namespace FieldPlot.Decimal

inductive Literal where
  | nan
  | infinite (negative : Bool)
  /-- `mantissa · 10 ^ exponent` with a sign. -/
  | finite (negative : Bool) (mantissa : Nat) (exponent : Int)
deriving DecidableEq, Repr

inductive Literal.Fault where
  | empty
  | malformed
deriving DecidableEq, Repr

def Literal.Fault.message : Literal.Fault → String
  | .empty => "cannot parse float from empty string"
  | .malformed => "invalid float literal"

namespace Literal

def isDigit (c : Char) : Bool :=
  '0' ≤ c && c ≤ '9'

def digitsValue (digits : List Char) : Nat :=
  digits.foldl (fun n c => 10 * n + (c.toNat - '0'.toNat)) 0

def splitSign : List Char → Bool × List Char
  | '-' :: rest => (true, rest)
  | '+' :: rest => (false, rest)
  | rest => (false, rest)

def readExponent : List Char → Option Int
  | [] => some 0
  | c :: rest =>
    if c = 'e' ∨ c = 'E' then
      let (negative, digits) := splitSign rest
      if digits ≠ [] ∧ digits.all isDigit then
        some (if negative then -(digitsValue digits : Int) else digitsValue digits)
      else none
    else none

def readMagnitude (negative : Bool) (s : List Char) : Option Literal :=
  let whole := s.takeWhile isDigit
  let (fraction, rest) :=
    match s.dropWhile isDigit with
    | '.' :: more => (more.takeWhile isDigit, more.dropWhile isDigit)
    | more => ([], more)
  if whole ++ fraction = [] then none
  else
    (readExponent rest).map fun e =>
      .finite negative (digitsValue (whole ++ fraction)) (e - fraction.length)

def read (s : List Char) : Except Fault Literal :=
  if s = [] then .error .empty
  else
    let (negative, rest) := splitSign s
    let word := String.ofList (rest.map Char.toLower)
    if word = "inf" ∨ word = "infinity" then .ok (.infinite negative)
    else if word = "nan" then .ok .nan
    else
      match readMagnitude negative rest with
      | some literal => .ok literal
      | none => .error .malformed

/-- Beyond this power of ten every number is infinite. -/
def largestPower : Int := 310

/-- Below this power of ten every number is zero. -/
def leastPower : Int := -330

/-- The nearest magnitude. Whether it is out of range on either side is seen from the number of
    digits, so that no power of ten far out of range is ever computed. -/
def magnitude (mantissa : Nat) (exponent : Int) : Float :=
  let size : Int := (Nat.toDigits 10 mantissa).length + exponent
  if mantissa = 0 ∨ size < leastPower then 0
  else if largestPower < size then 1 / 0
  else if exponent < 0 then Float.ofScientific mantissa true (-exponent).toNat
  else Float.ofScientific mantissa false exponent.toNat

def value : Literal → Float
  | .nan => 0 / 0
  | .infinite negative => if negative then -(1 / 0) else 1 / 0
  | .finite negative mantissa exponent =>
    if negative then -magnitude mantissa exponent else magnitude mantissa exponent

end Literal

def read (s : List Char) : Except Literal.Fault Float :=
  (Literal.read s).map Literal.value

end FieldPlot.Decimal
