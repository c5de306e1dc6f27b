import FieldPlot.Decimal.Binary
import FieldPlot.Text.Blank
import FieldPlot.Text.Numeral

/-!
Colours and the two scales on which values become colours. A colour is written as `#` and two
hexadecimal digits for each of red, green and blue.
-/
namespace FieldPlot

structure Colour where
  red : UInt8
  green : UInt8
  blue : UInt8
deriving DecidableEq, Inhabited, Repr

namespace Colour

/-- Lines are drawn in this colour where none, or none that can be read, is given. -/
def standard : Colour := ⟨255, 150, 0⟩

def missing : Colour := ⟨128, 128, 128⟩

def white : Colour := ⟨255, 255, 255⟩

def readChannel (digits : List Char) : Option UInt8 :=
  ((Text.Numeral.read 16 255 digits).toOption).map UInt8.ofNat

def read (s : List Char) : Option Colour :=
  match Text.trim s with
  | ['#', a, b, c, d, e, f] => do
    return ⟨← readChannel [a, b], ← readChannel [c, d], ← readChannel [e, f]⟩
  | _ => none

def writeChannel (digit : Nat → Char) (channel : UInt8) : List Char :=
  [digit (channel.toNat / 16), digit (channel.toNat % 16)]

def writeWith (digit : Nat → Char) (c : Colour) : List Char :=
  '#' :: (writeChannel digit c.red ++ writeChannel digit c.green ++ writeChannel digit c.blue)

def write (c : Colour) : List Char :=
  c.writeWith Nat.digitChar

def writeCapital (c : Colour) : List Char :=
  c.writeWith fun n => (Nat.digitChar n).toUpper

/-- Cut to `0 .. 1`; what is no number stays so. -/
def clampUnit (x : Float) : Float :=
  if x < 0 then 0 else if 1 < x then 1 else x

/-- Where a value lies in a range, from 0 at the lower end to 1 at the upper end. -/
def position (v : Float) (range : Float × Float) : Float :=
  if range.1 < range.2 then clampUnit ((v - range.1) / (range.2 - range.1)) else 0.5

def level (x : Float) : UInt8 :=
  UInt8.ofNat (Decimal.nearestNat 255 x)

def blend (a b : Float × Float × Float) (t : Float) : Colour :=
  let mix (x y : Float) := level (x + (y - x) * t)
  ⟨mix a.1 b.1, mix a.2.1 b.2.1, mix a.2.2 b.2.2⟩

/-- The stops of the scale: blue, light yellow, red. -/
def low : Float × Float × Float := (49, 54, 149)

def middle : Float × Float × Float := (255, 255, 191)

def high : Float × Float × Float := (165, 0, 38)

def ofValue (range : Float × Float) (v : Float) : Colour :=
  if v.isFinite then
    let t := position v range * 2
    if t ≤ 1 then blend low middle t else blend middle high (t - 1)
  else missing

def ofGrey (range : Float × Float) (v : Float) : Colour :=
  if v.isFinite then
    let l := level (position v range * 255)
    ⟨l, l, l⟩
  else missing

end Colour
end FieldPlot
