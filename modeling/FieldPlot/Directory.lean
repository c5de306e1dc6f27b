import FieldPlot.Drawing.Markup
import FieldPlot.Path
import FieldPlot.Text.Utf8

/-!
Files and folders as a value. Whatever changes a directory returns the changed one. A path is
followed part by part: every part but the last must lead to a folder, and of several faults the
first on the way is reported.
-/
namespace FieldPlot

inductive Document where
  | bytes (content : List UInt8)
  | text (content : String)
  | drawing (content : Drawing)
deriving DecidableEq

namespace Document

def toBytes : Document → List UInt8
  | bytes content => content
  | text content => Text.Utf8.encode content.toList
  | drawing content => Text.Utf8.encode content.markup.toList

end Document

inductive Entry where
  | folder
  | file (document : Document)
deriving DecidableEq

structure Directory where
  entries : List (Place × Entry) := []
deriving DecidableEq

namespace Directory

/-- What is at a place. The working folder, those above it and the root are always there. -/
def entry? (d : Directory) (p : Place) : Option Entry :=
  if p = ["/"] ∨ p.all (· == "..") then some .folder else d.entries.lookup p

def put (d : Directory) (p : Place) (e : Entry) : Directory :=
  if (d.entries.lookup p).isSome then
    ⟨d.entries.map fun (q, old) => if q = p then (q, e) else (q, old)⟩
  else ⟨d.entries ++ [(p, e)]⟩

/-- Follows the parts of a path. There need not be anything at the place that the last leads to. -/
def walk (d : Directory) : Place → List String → Except SystemFault Place
  | here, [] => .ok here
  | here, part :: rest =>
    match d.entry? here with
    | none => .error .missing
    | some (.file _) => .error .notFolder
    | some .folder =>
      if Path.isStill part then walk d here rest
      else if part = ".." then walk d (Path.back here) rest
      else if Path.tooLong part then .error .longName
      else walk d (here ++ [part]) rest

def follow? (d : Directory) (here : Place) (parts : List String) : Option Entry :=
  match d.walk here parts with
  | .ok p => d.entry? p
  | .error _ => none

def find? (d : Directory) (path : String) : Option Entry :=
  match Path.check path with
  | .error _ => none
  | .ok () =>
    let (here, parts) := Path.start path
    d.follow? here parts

def parent (d : Directory) (here : Place) (before : List String) : Except SystemFault Place :=
  d.walk here (before ++ ["."])

def makeLast (d : Directory) (here : Place) (parts : List String) :
    Except SystemFault Directory := do
  match Path.last? parts with
  | none => throw .exists
  | some (before, last) =>
    let folder ← d.parent here before
    if last = "." ∨ last = ".." then throw .exists
    if Path.tooLong last then throw .longName
    if (d.entry? (folder ++ [last])).isSome then throw .exists
    return d.put (folder ++ [last]) .folder

def ensureLast (d : Directory) (here : Place) (parts : List String) :
    Except SystemFault Directory :=
  match d.makeLast here parts with
  | .error .exists => if d.follow? here parts = some .folder then .ok d else .error .exists
  | result => result

/-- Makes a folder. If the way to it is missing, the folders above it are made before it is tried
    once more; `above` lists them from the nearest on. -/
def ensure (d : Directory) (here : Place) :
    List String → List (List String) → Directory × Except SystemFault Unit
  | parts, above =>
    match d.ensureLast here parts, above with
    | .ok next, _ => (next, .ok ())
    | .error .missing, nearest :: further =>
      match ensure d here nearest further with
      | (next, .error cause) => (next, .error cause)
      | (next, .ok ()) =>
        match next.ensureLast here parts with
        | .ok last => (last, .ok ())
        | .error cause => (next, .error cause)
    | .error cause, _ => (d, .error cause)

/-- Makes a folder and all folders above it. Folders made before a refusal stay. The empty path is
    the working folder, which is there. -/
def makeFolder (d : Directory) (path : String) : Directory × Except SystemFault Unit :=
  if path = "" then (d, .ok ())
  else
    match Path.check path with
    | .error cause => (d, .error cause)
    | .ok () =>
      let (here, parts) := Path.start path
      d.ensure here parts (Path.above parts)

def write (d : Directory) (path : String) (document : Document) :
    Except SystemFault Directory := do
  Path.check path
  let (here, parts) := Path.start path
  match Path.last? parts with
  | none => throw .isFolder
  | some (before, last) =>
    let folder ← d.parent here before
    if last = "." ∨ last = ".." ∨ Path.endsInSlash path then throw .isFolder
    if Path.tooLong last then throw .longName
    match d.entry? (folder ++ [last]) with
    | some .folder => throw .isFolder
    | _ => return d.put (folder ++ [last]) (.file document)

def remove (d : Directory) (path : String) : Except SystemFault Directory := do
  Path.check path
  let (here, parts) := Path.start path
  let p ← d.walk here parts
  match d.entry? p with
  | none => throw .missing
  | some .folder => throw .isFolder
  | some (.file _) => return ⟨d.entries.filter fun (q, _) => q ≠ p⟩

end Directory
end FieldPlot
