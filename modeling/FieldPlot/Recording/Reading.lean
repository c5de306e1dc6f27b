import FieldPlot.Recording
import FieldPlot.Table.Record

/-!
Recordings as text. The first record is the header; every further record with a field that is not
empty holds a time stamp and the values of one step. Empty fields do not count anywhere, so
separators at the end of a line change nothing.
-/
namespace FieldPlot.Recording

/-- A time stamp in milliseconds; its unit is `ms`, `s`, or left out. -/
def readTime (s : List Char) : Option Float :=
  let s := Text.trim s
  let (number, scale) : List Char × Float :=
    match Text.withoutEnding? ['m', 's'] s with
    | some number => (number, 1)
    | none =>
      match Text.withoutEnding? ['s'] s with
      | some number => (number, 1000)
      | none => (s, 1)
  ((Decimal.read (Text.trim number)).toOption).map (· * scale)

def readValues (line : Nat) : Nat → List (List Char) → Except Error (List Float)
  | _, [] => .ok []
  | column, field :: rest =>
    match Decimal.read field with
    | .error cause => .error (.field line column (.badValue (String.ofList field) cause))
    | .ok value => (readValues line (column + 1) rest).map (value :: ·)

def filledFields (r : Table.Record) : Except Error (List (List Char)) :=
  (r.texts).map fun fields => fields.filter (· ≠ [])

def readStep (header : Header) (r : Table.Record) : Except Error (Option (Float × List Float)) := do
  match ← filledFields r with
  | [] => return none
  | time :: values =>
    match readTime time with
    | none => throw (.field r.line 1 (.badTime (String.ofList time)))
    | some t =>
      if values.length ≠ header.frameLength then
        throw (.shapeMismatch header.extents header.frameLength values.length (some r.line))
      return some (t, ← readValues r.line 2 values)

def readSteps (header : Header) : List Table.Record → Except Error (List (Float × List Float))
  | [] => .ok []
  | r :: rest => do
    let here ← readStep header r
    let further ← readSteps header rest
    return here.toList ++ further

def read (bytes : List UInt8) : Except Error Recording :=
  match Table.scan bytes with
  | [] => .error .missingHeader
  | first :: rest => do
    let fields ← filledFields first
    let header ← Header.ofFields first.line (fields.map String.ofList)
    let steps ← readSteps header rest
    ofParts header (steps.map Prod.fst) (steps.map Prod.snd)

end FieldPlot.Recording
