import FieldPlot.Directory
import FieldPlot.Figure.Rows

/-!
Exports: figures written to files whose names are free. A name is made of the stem of the recording,
the mode of the figure and the first number that gives a name not yet taken.
-/
namespace FieldPlot

inductive Format where
  | table
  | drawing
deriving DecidableEq, Repr

namespace Format

def extension : Format → String
  | table => "csv"
  | drawing => "svg"

def read (s : String) : Except Error Format :=
  match Text.keyword s with
  | "csv" => .ok table
  | "svg" => .ok drawing
  | other => .error (.setting (.unknownFormat other))

def document : Format → Figure → Document
  | table, f => .text f.tableText
  | drawing, f => .drawing f.drawing

def refusal : Format → String → SystemFault → Error
  | table, path, cause => .cannotOpen path cause
  | drawing, _, cause => .cannotDraw cause

end Format

namespace Export

def stem (source : String) : String :=
  (Path.stem? source).getD "figure"

def fileName (stem : String) (mode : Mode) (number : Nat) (extension : String) : String :=
  stem ++ "-" ++ mode.slug ++ "-" ++ String.ofList (Text.Numeral.write number) ++ "." ++ extension

/-- The largest number that is tried: numbers are counted in 32 bits with a sign. -/
def lastNumber : Nat := 2147483647

def freeAmong (d : Directory) (path : Nat → String) : Nat → Nat → Option Nat
  | 0, _ => none
  | left + 1, n => if (d.find? (path n)).isNone then some n else freeAmong d path left (n + 1)

/-- The first number from one on whose path leads to nothing. Counting past the last one stops the
    program. -/
def freeNumber (d : Directory) (path : Nat → String) : Except Error Nat :=
  match freeAmong d path lastNumber 1 with
  | some n => .ok n
  | none => .error (.halt .sum)

def numbered (folder source : String) (mode : Mode) (extension : String) (number : Nat) : String :=
  Path.join folder (fileName (stem source) mode number extension)

def path (d : Directory) (folder source : String) (mode : Mode) (extension : String) :
    Except Error String :=
  (freeNumber d (numbered folder source mode extension)).map
    (numbered folder source mode extension)

/-- Writes a figure to the first free path in a folder, which is made if it is missing, and returns
    the path. -/
def run (d : Directory) (folder source : String) (format : Format) (f : Figure) :
    Directory × Except Error String :=
  match d.makeFolder folder with
  | (d, .error cause) => (d, .error (.system cause))
  | (d, .ok ()) =>
    match path d folder source f.mode format.extension with
    | .error halt => (d, .error halt)
    | .ok path =>
      match d.write path (format.document f) with
      | .ok next => (next, .ok path)
      | .error cause => (d, .error (format.refusal path cause))

end Export
end FieldPlot
