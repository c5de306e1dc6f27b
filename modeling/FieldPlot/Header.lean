import FieldPlot.Error

/-!
The header of a recording: what kind of data it holds and how far each axis extends. A frame is a
flat list in which the first declared axis varies fastest; several channels of an element follow one
another, so that a recorded frame is `channels` times as long as its array.
-/
namespace FieldPlot

structure Header where
  kind : String
  elementType : String
  /-- The extent of every axis, in the order of declaration. -/
  extents : List Nat
deriving DecidableEq, Repr

namespace Header

def ofExtents (extents : List Nat) : Header :=
  ⟨"", "", extents⟩

def rank (h : Header) : Nat :=
  h.extents.length

def extent? (h : Header) (axis : Nat) : Option Nat :=
  h.extents[axis]?

/-- The number of array elements of a frame, clamped to the largest count. -/
def elementCount (h : Header) : Nat :=
  Word.productClamped h.extents

def channelText? (elementType : List Char) : Option (List Char) :=
  if 'C' ∈ elementType then some (elementType.reverse.takeWhile (· != 'C')).reverse else none

/-- The channels per element: an element type such as `8UC3` ends in their number. It is one where
    the type does not end so, or says zero. -/
def channels (h : Header) : Nat :=
  match (channelText? h.elementType.toList).map (Text.Numeral.read 10 Word.limit) with
  | some (.ok (n + 1)) => n + 1
  | _ => 1

def frameLength? (h : Header) : Option Nat :=
  Word.product? h.channels h.extents

/-- The number of values of a recorded frame; a length out of range counts as the largest count,
    which no frame in memory has. -/
def frameLength (h : Header) : Nat :=
  h.frameLength?.getD Word.limit

/-- The shape of the array of a frame: the last declared axis comes first and varies slowest. -/
def arrayShape (h : Header) : List Nat :=
  h.extents.reverse

def checkLength (h : Header) (length : Nat) : Except Error Unit :=
  if length = h.elementCount then .ok ()
  else .error (.shapeMismatch h.extents h.elementCount length none)

/-- The extents in a header record. They start in its third field. -/
def readExtents (line : Nat) : Nat → List String → Except Error (List Nat)
  | _, [] => .ok []
  | column, field :: rest =>
    match Text.Numeral.read 10 Word.limit field.toList with
    | .error cause => .error (.field line column (.badExtent field cause))
    | .ok extent => (readExtents line (column + 1) rest).map (extent :: ·)

def ofFields (line : Nat) : List String → Except Error Header
  | [] => .error .missingHeader
  | kind :: rest => do
    let extents ← readExtents line 3 rest.tail
    let header : Header := ⟨kind, rest.headD "", extents⟩
    if header.frameLength?.isNone then throw (.field line 3 (.hugeExtents extents))
    return header

end Header
end FieldPlot
