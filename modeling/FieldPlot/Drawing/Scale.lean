import FieldPlot.Decimal.Binary

/-!
From values to pixels. A scale maps a range of values onto pixels from `first` to `last`, which may
run in either direction, and cuts what falls outside to its own `least .. most`.
-/
namespace FieldPlot.Drawing

structure Scale where
  low : Float
  high : Float
  first : Int
  last : Int
  least : Int
  most : Int

/-- Pixel numbers are cut to 32 bits before they are cut to the scale. -/
def pixelLimit : Nat := 2147483647

/-- What is added to a pixel before it is rounded towards `first`. -/
def slack : Float := 0.001

namespace Scale

def offset (s : Scale) (v : Float) : Int :=
  let t := (v - s.low) / (s.high - s.low)
  let span := s.last - s.first
  if t.isInf then (if 0 < t then span else 0)
  else if 0 < span then Decimal.floorWithin pixelLimit (Float.ofInt span * t + slack)
  else Decimal.ceilWithin pixelLimit (Float.ofInt span * t - slack)

/-- The pixel of a value. A range without extent has one pixel for all values. -/
def pixel (s : Scale) (v : Float) : Int :=
  let raw := if s.low == s.high then Int.tdiv (s.last - s.first) 2 else s.first + s.offset v
  max s.least (min s.most raw)

def across (most : Float) : Scale :=
  ⟨0, most, 60, 789, 60, 790⟩

def up (low high : Float) : Scale :=
  ⟨low, high, 559, 36, 36, 560⟩

end Scale
end FieldPlot.Drawing
