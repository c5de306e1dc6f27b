/-!
Whole numbers as text: an optional `+` and digits of a base, up to a bound. The reader goes from
the left, so the first bad digit or the first number too large decides.
-/
namespace FieldPlot.Text.Numeral

inductive Fault where
  | empty
  | badDigit
  | tooLarge
deriving DecidableEq, Repr

def Fault.message : Fault → String
  | .empty => "cannot parse integer from empty string"
  | .badDigit => "invalid digit found in string"
  | .tooLarge => "number too large to fit in target type"

def digitValue? (base : Nat) (c : Char) : Option Nat :=
  let value :=
    if '0' ≤ c ∧ c ≤ '9' then some (c.toNat - '0'.toNat)
    else if 'a' ≤ c ∧ c ≤ 'z' then some (c.toNat - 'a'.toNat + 10)
    else if 'A' ≤ c ∧ c ≤ 'Z' then some (c.toNat - 'A'.toNat + 10)
    else none
  value.filter (· < base)

/-- Digits read behind a number already read. -/
def readDigits (base bound : Nat) : Nat → List Char → Except Fault Nat
  | number, [] => .ok number
  | number, c :: rest =>
    match digitValue? base c with
    | none => .error .badDigit
    | some d =>
      if number * base + d ≤ bound then readDigits base bound (number * base + d) rest
      else .error .tooLarge

def read (base bound : Nat) : List Char → Except Fault Nat
  | [] => .error .empty
  | '+' :: [] => .error .badDigit
  | '+' :: digits => readDigits base bound 0 digits
  | digits => readDigits base bound 0 digits

def write (n : Nat) : List Char :=
  Nat.toDigits 10 n

def writeList (numbers : List Nat) : String :=
  "[" ++ ", ".intercalate (numbers.map fun n => String.ofList (write n)) ++ "]"

end FieldPlot.Text.Numeral
