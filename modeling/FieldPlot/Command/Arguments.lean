import FieldPlot.Command.Setting

/-!
Reading the arguments of the command line: first a command, then the path of a recording and the
settings, in any order. A value follows its flag, or stands in the same argument behind `=`. A value
that follows is looked at only when the next flag, the next path or the end comes, so of two faulty
arguments the later may be the one reported.
-/
namespace FieldPlot.Command

inductive Verb where
  | info
  | snapshot
  | timeCourse
  | sequence
deriving DecidableEq, Repr

namespace Verb

def ofName? : String → Option Verb
  | "info" => some info
  | "snapshot" => some snapshot
  | "time-course" => some timeCourse
  | "sequence" => some sequence
  | _ => none

def accepts : Verb → Setting → Bool
  | _, .log => true
  | snapshot, .step => true
  | timeCourse, .marker => true
  | sequence, .start => true
  | sequence, .stepSize => true
  | sequence, .count => true
  | info, _ => false
  | _, .step => false
  | _, .marker => false
  | _, .start => false
  | _, .stepSize => false
  | _, .count => false
  | _, _ => true

end Verb

inductive Shape where
  /-- Two dashes: everything behind them is a path. -/
  | divider
  | long (flag : String) (value : Option String)
  | short
  | plain
deriving DecidableEq, Repr

/-- A single dash is a plain argument. -/
def Shape.of (argument : String) : Shape :=
  match argument.toList with
  | ['-', '-'] => .divider
  | '-' :: '-' :: rest =>
    let flag := String.ofList (rest.takeWhile (· ≠ '='))
    match rest.dropWhile (· ≠ '=') with
    | '=' :: value => .long flag (some (String.ofList value))
    | _ => .long flag none
  | '-' :: _ :: _ => .short
  | _ => .plain

structure Reading where
  given : Given := {}
  /-- A slot that waits for its value, or whose value waits to be looked at. -/
  pending : Option (Slot × Option String) := none
  hasFile : Bool := false
  divided : Bool := false

namespace Reading

def settle (r : Reading) : Except UsageFault Reading :=
  match r.pending with
  | none => .ok r
  | some (slot, none) => .error (.missingValue slot)
  | some (slot, some value) => do
    return { r with given := ← r.given.assign slot value, pending := none }

/-- A flag. Its own value is looked at right away; otherwise the next argument is waited for. -/
def takeFlag (accepts : Setting → Bool) (r : Reading) (flag : String) (value : Option String) :
    Except UsageFault Reading :=
  match (Setting.ofFlag? flag).filter accepts with
  | none => .error (if flag = "help" then .help else .unknownFlag ("--" ++ flag))
  | some s => do
    let r ← r.settle
    match value with
    | some v => return { r with given := ← r.given.set s v }
    | none => return { r with pending := some (.setting s, none) }

def takeFile (r : Reading) (path : String) : Except UsageFault Reading := do
  if r.hasFile then throw (.unexpected path)
  let r ← r.settle
  return { r with pending := some (.file, some path), hasFile := true }

def takePlain (r : Reading) (argument : String) : Except UsageFault Reading :=
  match r.pending with
  | some (slot, none) => .ok { r with pending := some (slot, some argument) }
  | _ => r.takeFile argument

def take (accepts : Setting → Bool) (r : Reading) (argument : String) :
    Except UsageFault Reading :=
  if r.divided then r.takeFile argument
  else
    match Shape.of argument with
    | .divider => .ok { r with divided := true }
    | .long flag value => r.takeFlag accepts flag value
    | .short => .error (if argument = "-h" then .help else .unknownFlag argument)
    | .plain => r.takePlain argument

def all (verb : Verb) (arguments : List String) : Except UsageFault Given := do
  let r ← arguments.foldlM (take verb.accepts) {}
  return (← r.settle).given

/-- The arguments up to the command, which only the log may be among. -/
def upToVerb : Reading → List String → Except UsageFault (Reading × Verb × List String)
  | _, [] => .error .missingCommand
  | r, argument :: rest =>
    match Shape.of argument with
    | .divider => .error .missingCommand
    | .short => .error (if argument = "-h" then .help else .unknownFlag argument)
    | .long flag value => do
      let r ← r.takeFlag (· == .log) flag value
      upToVerb r rest
    | .plain =>
      match r.pending with
      | some (slot, none) => upToVerb { r with pending := some (slot, some argument) } rest
      | _ =>
        match Verb.ofName? argument with
        | some verb => .ok (r, verb, rest)
        | none => .error (.unexpected argument)

end Reading

structure Target where
  folder : Option String
  format : Format

inductive Task where
  | info
  | snapshot (request : Request) (step : Nat) (target : Target)
  | timeCourse (request : Request) (marked : Option Nat) (target : Target)
  | sequence (request : Request) (start stride count : Nat) (target : Target)

structure Invocation where
  log : Option String
  file : String
  task : Task

namespace Given

def target (g : Given) : Target :=
  ⟨g.folder, g.format.getD .table⟩

def task (g : Given) : Verb → Except UsageFault Task
  | .info => .ok .info
  | .snapshot => .ok (.snapshot g.request (g.step.getD 0) g.target)
  | .timeCourse => .ok (.timeCourse g.request g.marker g.target)
  | .sequence =>
    match g.count with
    | none => .error .missingCount
    | some count =>
      .ok (.sequence g.request (g.start.getD 0) (g.stepSize.getD 1) count g.target)

end Given

/-- Reads all arguments. A log named behind the command counts more than one in front of it. -/
def Invocation.read (arguments : List String) : Except UsageFault Invocation := do
  let (front, verb, rest) ← Reading.upToVerb {} arguments
  let given ← Reading.all verb rest
  match given.file with
  | none => throw .missingFile
  | some file =>
    let task ← given.task verb
    let front ← front.settle
    return ⟨given.log.orElse fun _ => front.given.log, file, task⟩

end FieldPlot.Command
