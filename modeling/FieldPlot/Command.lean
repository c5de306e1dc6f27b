import FieldPlot.Command.Arguments
import FieldPlot.Figure.Snapshot
import FieldPlot.Figure.TimeCourse
import FieldPlot.Recording.Reading
import FieldPlot.Selection.Menu

/-!
Running a command on a directory. The answer is the changed directory together with the exit code
and the two texts that are printed. A command plans all figures before it writes the first.
-/
namespace FieldPlot

namespace Recording

def load (d : Directory) (path : String) : Except Error Recording :=
  match d.find? path with
  | none => .error (.cannotOpen path .missing)
  | some .folder => .error (.unreadable .isFolder)
  | some (.file document) => read document.toBytes

end Recording

namespace Command

structure Outcome where
  code : Nat := 0
  output : String := ""
  errors : String := ""
deriving DecidableEq, Repr

def indent (places : Nat) (s : String) : String :=
  String.ofList (s.toList.flatMap fun c => if c = '\n' then c :: List.replicate places ' ' else [c])

def reportCauses : List String → String
  | [] => ""
  | [cause] => "\nCaused by:\n    " ++ indent 4 cause ++ "\n"
  | causes =>
    "\nCaused by:\n" ++
      String.join (causes.zipIdx.map fun (cause, i) => s!"    {i}: {indent 7 cause}\n")

def report (message : String) (causes : List String) : String :=
  "Error: " ++ message ++ "\n" ++ reportCauses causes

def reportError (e : Error) : String :=
  report e.message e.causes

namespace Outcome

def failed (o : Outcome) (text : String) : Outcome :=
  { o with code := 1, errors := o.errors ++ text }

def print (o : Outcome) (text : String) : Outcome :=
  { o with output := o.output ++ text }

def note (o : Outcome) (text : String) : Outcome :=
  { o with errors := o.errors ++ text }

/-- Ends without an answer. A halt has a code of its own. -/
def ended (o : Outcome) : Error → Outcome
  | .halt cause => { o with code := 101, errors := o.errors ++ cause.message ++ "\n" }
  | e => o.failed (reportError e)

end Outcome

def describeContent : Content → String
  | .line values => s!"line of {values.length}"
  | .grid cells => s!"grid {cells.height}x{cells.columns}"
  | .image picture => s!"image {picture.size.1}x{picture.size.2}"

def describe (f : Figure) : String :=
  let step := (f.step.map fun n => s!" step {n}").getD ""
  let projection :=
    if f.selection = .unprojected then "" else s!" onto {f.selection.text} by {f.method.name}"
  let marker := (f.marker.map fun m => s!", marker at step {m.step}").getD ""
  s!"{f.mode.name} ({f.style.name}){step}{projection}: {describeContent f.content}{marker}"

def summary (file : String) (r : Recording) : String :=
  let times :=
    match r.times.head?, r.times.getLast? with
    | some first, some last => s!"time: {Decimal.text first}ms .. {Decimal.text last}ms\n"
    | _, _ => ""
  let values :=
    match r.range with
    | some (low, high) => s!"values: {Decimal.text low} .. {Decimal.text high}\n"
    | none => ""
  let offered := Selection.offered r.rank ((Selection.candidates r.rank).map Selection.text)
  let choices := " | ".intercalate (offered.map Selection.text)
  s!"file: {file}\nkind: {r.header.kind}\nelement type: {r.header.elementType}\n" ++
    s!"extents: {Text.Numeral.writeList r.header.extents}\ndimension: {r.rank}\n" ++
    s!"steps: {r.steps}\n" ++ times ++ values ++
    s!"projections: {choices}\n"

def emit (d : Directory) (o : Outcome) (source : String) (target : Target) (f : Figure) :
    Directory × Except Outcome Outcome :=
  let o := o.note (describe f ++ "\n")
  match target.folder with
  | none => (d, .ok (o.print f.tableText))
  | some folder =>
    match Export.run d folder source target.format f with
    | (d, .ok path) => (d, .ok (o.print (path ++ "\n")))
    | (d, .error e) => (d, .error (o.ended e))

def emitAll (source : String) (target : Target) :
    Directory → Outcome → List Figure → Directory × Outcome
  | d, o, [] => (d, o)
  | d, o, f :: rest =>
    match emit d o source target f with
    | (d, .ok o) => emitAll source target d o rest
    | (d, .error o) => (d, o)

def lacksFolder (target : Target) : Bool :=
  target.folder.isNone && target.format == .drawing

def deliver (d : Directory) (source : String) (target : Target) :
    Except Error (List Figure) → Directory × Outcome
  | .error e => (d, ({} : Outcome).ended e)
  | .ok figures =>
    if lacksFolder target then
      (d, ({} : Outcome).failed (report "SVG export needs an output directory (--out)" []))
    else emitAll source target d {} figures

def perform (d : Directory) (file : String) (r : Recording) : Task → Directory × Outcome
  | .info => (d, ({} : Outcome).print (summary file r))
  | .snapshot q step target => deliver d file target ((r.snapshot q step).map ([·]))
  | .timeCourse q marked target => deliver d file target ((r.timeCourse q marked).map ([·]))
  | .sequence q start stride count target =>
    deliver d file target (r.sequence q start stride count)

def runTask (d : Directory) (file : String) (task : Task) : Directory × Outcome :=
  if (d.find? file).isNone then
    (d, ({} : Outcome).failed (report s!"Path not found: {file}" []))
  else
    match Recording.load d file with
    | .ok r => perform d file r task
    | .error e =>
      (d, ({} : Outcome).failed (report s!"Failed to read recording {file}" (e.message :: e.causes)))

def Invocation.paths (i : Invocation) : List String :=
  let folder :=
    match i.task with
    | .info => none
    | .snapshot _ _ target => target.folder
    | .timeCourse _ _ target => target.folder
    | .sequence _ _ _ _ target => target.folder
  i.file :: (i.log.toList ++ folder.toList)

def logStart : String := "started\n"

/-- Creates the log before anything else is done, so that a log named like the recording replaces
    it. -/
def Invocation.run (d : Directory) (i : Invocation) : Directory × Outcome :=
  match i.log with
  | none => runTask d i.file i.task
  | some log =>
    match d.write log (.text logStart) with
    | .ok d => runTask d i.file i.task
    | .error cause =>
      (d, ({} : Outcome).failed (report s!"Failed to open log file {log}" [cause.message]))

def run (d : Directory) (arguments : List String) : Directory × Except UsageFault Outcome :=
  match Invocation.read arguments with
  | .error fault => (d, .error fault)
  | .ok i => let (d, o) := i.run d; (d, .ok o)

end Command
end FieldPlot
