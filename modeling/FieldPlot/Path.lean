import FieldPlot.Error
import FieldPlot.Text.Blank

/-!
Paths. A path is a text that leads to a place, name by name, with slashes between the names: empty
parts and `.` stay where they are, and `..` goes back. A place is the list of names from the working
folder. Paths, and the names in them, have a greatest length in bytes.
-/
namespace FieldPlot

abbrev Place := List String

namespace Path

def parts (path : String) : List String :=
  (Text.cutAt '/' path.toList).map String.ofList

/-- A name in a folder. The empty path is the working folder. -/
def join (folder name : String) : String :=
  if folder = "" then name
  else if folder.toList.getLast? = some '/' then folder ++ name
  else folder ++ "/" ++ name

def isStill (part : String) : Bool :=
  part == "" || part == "."

def steps (parts : List String) : List String :=
  parts.filter fun p => !isStill p

/-- The same path without the parts at both ends that stay where they are. -/
def tidy (path : String) : String :=
  "/".intercalate (Text.stripBoth isStill (parts path))

def name? (path : String) : Option String :=
  match (steps (parts path)).getLast? with
  | some ".." => none
  | last => last

/-- A name without its last ending; a name that only starts with a dot has no ending. -/
def stemOf (name : List Char) : List Char :=
  if '.' ∈ name then
    let stem := ((name.reverse.dropWhile (· ≠ '.')).drop 1).reverse
    if stem = [] then name else stem
  else name

def stem? (path : String) : Option String :=
  (name? path).map fun name => String.ofList (stemOf name.toList)

def nameLimit : Nat := 255

def tooLong (name : String) : Bool :=
  nameLimit < name.utf8ByteSize

def limit : Nat := 4095

def check (path : String) : Except SystemFault Unit :=
  if '\x00' ∈ path.toList then .error .zeroByte
  else if path = "" then .error .missing
  else if limit < path.utf8ByteSize then .error .longName
  else .ok ()

/-- One folder back. Behind the working folder and above it every step back is a name of its own. -/
def back (p : Place) : Place :=
  if p = ["/"] then p
  else if p = [] ∨ p.getLast? = some ".." then p ++ [".."]
  else p.dropLast

def start (path : String) : Place × List String :=
  match parts path with
  | "" :: rest => (["/"], rest)
  | all => ([], all)

def last? (parts : List String) : Option (List String × String) :=
  match parts.reverse.dropWhile (· == "") with
  | [] => none
  | last :: before => some (before.reverse, last)

def endsInSlash (path : String) : Bool :=
  path.toList.getLast? == some '/'

def above (parts : List String) : List (List String) :=
  let all := steps parts
  ((List.range all.length).drop 1).reverse.map fun n => all.take n

end Path
end FieldPlot
