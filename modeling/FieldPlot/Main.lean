import FieldPlot.Command

/-!
The program: it takes the files that the arguments name into a directory value, runs the command on
it, and writes back what has changed.
-/
namespace FieldPlot.Main

/-- What can be opened is a file, or a folder if it cannot be read. -/
def entryOf (handle : IO.FS.Handle) : IO Entry := do
  try return .file (.bytes (← handle.readBinToEnd).toList)
  catch _ => return .folder

def probe (path : String) : IO (Option Entry) := do
  try return some (← entryOf (← IO.FS.Handle.mk path .read))
  catch _ => return none

def diskPath : Place → String
  | [] => "."
  | "/" :: names => "/" ++ "/".intercalate names
  | names => "/".intercalate names

def loadAlong : Directory → Place → List String → IO Directory
  | d, _, [] => return d
  | d, here, part :: rest =>
    if Path.isStill part then loadAlong d here rest
    else do
      let there := if part = ".." then Path.back here else here ++ [part]
      match ← probe (diskPath there) with
      | some e => loadAlong (if (d.entry? there).isSome then d else d.put there e) there rest
      | none => return d

def load (d : Directory) (path : String) : IO Directory :=
  let (here, parts) := Path.start path
  loadAlong d here parts

def changes (before after : Directory) : List (Place × Entry) :=
  after.entries.filter fun (p, e) => before.entry? p ≠ some e

/-- Runs the command. If a name that it found free is taken on the disk, it is run again with the
    entry that is there. -/
partial def converge (d : Directory) (i : Command.Invocation) :
    IO (Directory × Directory × Command.Outcome) := do
  let (next, outcome) := i.run d
  let unknown := (changes d next).filter fun (p, _) => (d.entry? p).isNone
  let found ← unknown.filterMapM fun (p, _) => do
    return (← probe (diskPath p)).map fun e => (p, e)
  if found.isEmpty then return (d, next, outcome)
  converge (found.foldl (fun d (p, e) => d.put p e) d) i

def store : Place × Entry → IO Unit
  | (p, .folder) => IO.FS.createDirAll (diskPath p)
  | (p, .file document) =>
    IO.FS.writeBinFile (diskPath p) (ByteArray.mk document.toBytes.toArray)

def perform (i : Command.Invocation) : IO UInt32 := do
  let start ← i.paths.foldlM load {}
  let (before, after, outcome) ← converge start i
  for change in changes before after do store change
  IO.eprint outcome.errors
  IO.print outcome.output
  return UInt32.ofNat outcome.code

end FieldPlot.Main

def main (arguments : List String) : IO UInt32 := do
  match FieldPlot.Command.Invocation.read arguments with
  | .ok i => FieldPlot.Main.perform i
  | .error .help => IO.println FieldPlot.Command.UsageFault.help.message; return 0
  | .error fault => IO.eprint (String.ofList fault.report); return 2
