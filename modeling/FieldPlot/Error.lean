import FieldPlot.Axis
import FieldPlot.Decimal.Literal

/-!
What can go wrong between a recording and a figure. Every constructor is a cause with the values
that it is about; `Error.message` holds all wording. A `Halt` is no answer to a request: the program
stops where it stands.
-/
namespace FieldPlot

inductive ProjectionFault where
  | tooFewAxes (rank : Nat)
  | repeatedAxis (axis : Axis)
  | tooManyAxes (text : String)
  | planeOverTime
  /-- The shape is beyond what an array can address. -/
  | unaddressable
  /-- More or fewer axes are left than the result has. -/
  | leftoverAxes
deriving DecidableEq, Repr

def ProjectionFault.message : ProjectionFault → String
  | .tooFewAxes rank => s!"cannot keep two axes of {rank}-dimensional data"
  | .repeatedAxis axis => s!"axis {axis.text} selected twice"
  | .tooManyAxes text => s!"'{text}' names more than two axes"
  | .planeOverTime => "a time course keeps exactly one axis"
  | .unaddressable => "ShapeError/Overflow: arithmetic overflow"
  | .leftoverAxes => "ShapeError/IncompatibleShape: incompatible shapes"

inductive SettingFault where
  | unknownStyle (text : String)
  | unknownLineStyle (text : String)
  | unknownFormat (text : String)
  | imageOverTime
deriving DecidableEq, Repr

def SettingFault.message : SettingFault → String
  | .unknownStyle text => s!"unknown plot style '{text}'"
  | .unknownLineStyle text => s!"unknown line style '{text}'"
  | .unknownFormat text => s!"unknown export format '{text}'"
  | .imageOverTime => "image style only applies to snapshots"

inductive FieldFault where
  | badExtent (text : String) (cause : Text.Numeral.Fault)
  | hugeExtents (extents : List Nat)
  | badTime (text : String)
  | badValue (text : String) (cause : Decimal.Literal.Fault)
deriving DecidableEq, Repr

def FieldFault.message : FieldFault → String
  | .badExtent text cause => s!"invalid extent '{text}': {cause.message}"
  | .hugeExtents extents => s!"extents {Text.Numeral.writeList extents} overflow the frame length"
  | .badTime text => s!"invalid time stamp '{text}'"
  | .badValue text cause => s!"'{text}': {cause.message}"

inductive SystemFault where
  | missing
  | exists
  | notFolder
  | isFolder
  | longName
  /-- A path with the character of number zero in it. -/
  | zeroByte
deriving DecidableEq, Repr

def SystemFault.message : SystemFault → String
  | .missing => "No such file or directory (os error 2)"
  | .exists => "File exists (os error 17)"
  | .notFolder => "Not a directory (os error 20)"
  | .isFolder => "Is a directory (os error 21)"
  | .longName => "File name too long (os error 36)"
  | .zeroByte => "file name contained an unexpected NUL byte"

/-- Where a record's bytes stop being text: the record, its line, its first byte, the field, and
    the number of good bytes in that field. -/
structure BrokenText where
  record : Nat
  line : Nat
  byte : Nat
  field : Nat
  good : Nat
deriving DecidableEq, Repr

namespace BrokenText

def fieldMessage (p : BrokenText) : String :=
  s!"invalid utf-8: invalid UTF-8 in field {p.field} near byte index {p.good}"

def message (p : BrokenText) : String :=
  s!"CSV parse error: record {p.record} (line {p.line}, field: {p.field}, byte: {p.byte}): " ++
    p.fieldMessage

end BrokenText

inductive Halt where
  | product
  | sum
  /-- A shape that no array can address. -/
  | array
deriving DecidableEq, Repr

def Halt.message : Halt → String
  | .product => "attempt to multiply with overflow"
  | .sum => "attempt to add with overflow"
  | .array => "ndarray: Shape too large, product of non-zero axis lengths overflows isize"

inductive Error where
  | undefinedAxis (axis : Axis) (rank : Nat)
  | stepOutOfRange (step steps : Nat)
  | shapeMismatch (extents : List Nat) (expected actual : Nat) (line : Option Nat)
  | unknownAggregation (text : String)
  | setting (fault : SettingFault)
  | badAxisLabel (text : String)
  | projection (fault : ProjectionFault)
  | projectionRequired (rank : Nat)
  | notAnImage (values width height : Nat)
  | unmatchedTimes (times frames : Nat)
  | missingHeader
  | field (line column : Nat) (fault : FieldFault)
  | brokenText (place : BrokenText)
  | unreadable (cause : SystemFault)
  | cannotOpen (path : String) (cause : SystemFault)
  | cannotDraw (cause : SystemFault)
  | system (cause : SystemFault)
  | halt (cause : Halt)
deriving DecidableEq, Repr

namespace Error

def lineNote : Option Nat → String
  | none => ""
  | some line => s!" (line {line})"

def message : Error → String
  | undefinedAxis axis rank => s!"Undefined projection axis: {axis.text} (data has {rank} axes)"
  | stepOutOfRange step steps => s!"Step {step} out of range: recording has {steps} steps"
  | shapeMismatch extents expected actual line =>
    s!"Shape mismatch{lineNote line}: extents {Text.Numeral.writeList extents} need " ++
      s!"{expected} values, frame has {actual}"
  | unknownAggregation text =>
    s!"Unknown aggregation mode: '{text}' (expected sum, average or maximum)"
  | setting fault => s!"Invalid configuration: {fault.message}"
  | badAxisLabel text => s!"Invalid axis label: '{text}'"
  | projection fault => s!"Invalid projection: {fault.message}"
  | projectionRequired rank => s!"{rank}-dimensional data needs a projection onto one or two axes"
  | notAnImage values width height =>
    s!"Frame of {values} values is not a {width}x{height} greyscale or RGB image"
  | unmatchedTimes times frames =>
    s!"Invalid recording: {times} time stamps for {frames} frames"
  | missingHeader => "Missing header (first line)"
  | field line column fault => s!"Parse error (line {line}, column {column}): {fault.message}"
  | brokenText place => s!"CSV error: {place.message}"
  | unreadable cause => s!"CSV error: {cause.message}"
  | cannotOpen path _ => s!"Failed to open file: {path}"
  | cannotDraw cause => s!"Render error: backend error: Drawing backend error: {cause.message}"
  | system cause => s!"IO error: {cause.message}"
  | halt cause => cause.message

/-- The messages of the causes behind an error, each the cause of the one before it. -/
def causes : Error → List String
  | brokenText place => [place.message]
  | unreadable cause => [cause.message]
  | cannotOpen _ cause => [cause.message]
  | system cause => [cause.message]
  | _ => []

end Error
end FieldPlot
