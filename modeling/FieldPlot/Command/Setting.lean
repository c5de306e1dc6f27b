import FieldPlot.Export
import FieldPlot.Figure.Request
import FieldPlot.Text.Terminal

/-!
The settings of the command line. Each has a flag and reads its own kind of value; a setting is
given once at most.
-/
namespace FieldPlot.Command

inductive Setting where
  | log
  | step
  | marker
  | start
  | stepSize
  | count
  | proj
  | method
  | style
  | lineStyle
  | stride
  | surfaceLinewidth
  | vmin
  | vmax
  | color
  | markerColor
  | title
  | xLabel
  | yLabel
  | zLabel
  | out
  | format
deriving DecidableEq, Repr

namespace Setting

def all : List Setting :=
  [log, step, marker, start, stepSize, count, proj, method, style, lineStyle, stride,
   surfaceLinewidth, vmin, vmax, color, markerColor, title, xLabel, yLabel, zLabel, out, format]

def flag : Setting → String
  | log => "log"
  | step => "step"
  | marker => "marker"
  | start => "start"
  | stepSize => "step-size"
  | count => "count"
  | proj => "proj"
  | method => "method"
  | style => "style"
  | lineStyle => "line-style"
  | stride => "stride"
  | surfaceLinewidth => "surface-linewidth"
  | vmin => "vmin"
  | vmax => "vmax"
  | color => "color"
  | markerColor => "marker-color"
  | title => "title"
  | xLabel => "x-label"
  | yLabel => "y-label"
  | zLabel => "z-label"
  | out => "out"
  | format => "format"

def ofFlag? (s : String) : Option Setting :=
  all.find? fun t => t.flag == s

def valueName (s : Setting) : String :=
  String.ofList (s.flag.toList.map fun c => if c = '-' then '_' else c.toUpper)

end Setting

inductive Slot where
  | setting (s : Setting)
  | file
deriving DecidableEq, Repr

inductive UsageFault where
  | badValue (setting : Setting) (value message : String)
  | repeated (setting : Setting)
  | missingValue (slot : Slot)
  | emptyPath (slot : Slot)
  | unknownFlag (argument : String)
  | unexpected (argument : String)
  | missingCommand
  | missingFile
  | missingCount
  /-- No fault: the arguments ask for help. -/
  | help
deriving DecidableEq, Repr

namespace UsageFault

open Text.Terminal (strong)

def slotName : Slot → String
  | .setting s => strong s!"--{s.flag} <{s.valueName}>"
  | .file => strong "<FILE>"

/-- What is wrong, with the words in bold that the arguments hold or are to hold. -/
def message : UsageFault → String
  | badValue s value message =>
    s!"invalid value '{strong value}' for '{slotName (.setting s)}': {message}"
  | repeated s => s!"the argument '{slotName (.setting s)}' cannot be used multiple times"
  | missingValue slot => s!"a value is required for '{slotName slot}' but none was supplied"
  | emptyPath slot => s!"a value is required for '{slotName slot}' but none was supplied"
  | unknownFlag argument => s!"unexpected argument '{strong argument}' found"
  | unexpected argument => s!"unexpected argument '{strong argument}' found"
  | missingCommand => "a command is required: info, snapshot, time-course or sequence"
  | missingFile => s!"the argument '{slotName .file}' is required"
  | missingCount => s!"the argument '{slotName (.setting .count)}' is required"
  | help =>
    "usage: info|snapshot|time-course|sequence FILE [--log LOG] [--step STEP] [--marker MARKER] " ++
      "[--start START] [--step-size STEP_SIZE] [--count COUNT] [--proj PROJ] [--method METHOD] " ++
      "[--style STYLE] [--line-style LINE_STYLE] [--stride STRIDE] " ++
      "[--surface-linewidth SURFACE_LINEWIDTH] [--vmin VMIN] [--vmax VMAX] [--color COLOR] " ++
      "[--marker-color MARKER_COLOR] [--title TITLE] [--x-label X_LABEL] [--y-label Y_LABEL] " ++
      "[--z-label Z_LABEL] [--out OUT] [--format FORMAT]"

def styled (f : UsageFault) : String :=
  strong "error:" ++ " " ++ f.message ++ "\n\nFor more information, try '" ++ strong "--help" ++
    "'.\n"

/-- The report without control sequences, those that the arguments themselves hold included. -/
def report (f : UsageFault) : List Char :=
  Text.Terminal.plain f.styled.toList

def firstLine (f : UsageFault) : String :=
  String.ofList (f.report.takeWhile (· ≠ '\n'))

end UsageFault

structure Given where
  file : Option String := none
  log : Option String := none
  step : Option Nat := none
  marker : Option Nat := none
  start : Option Nat := none
  stepSize : Option Nat := none
  count : Option Nat := none
  selection : Option Selection := none
  method : Option Aggregation := none
  style : Option Style := none
  lineStyle : Option LineStyle := none
  stride : Option Nat := none
  edgeWidth : Option Float := none
  low : Option Float := none
  high : Option Float := none
  colour : Option String := none
  markerColour : Option String := none
  title : Option String := none
  xLabel : Option String := none
  yLabel : Option String := none
  zLabel : Option String := none
  folder : Option String := none
  format : Option Format := none

namespace Given

def once {α : Type} (s : Setting) (current : Option α) (read : String → Except String α)
    (value : String) : Except UsageFault (Option α) :=
  if current.isSome then .error (.repeated s)
  else
    match read value with
    | .ok a => .ok (some a)
    | .error message => .error (.badValue s value message)

def oncePath (s : Setting) (current : Option String) (value : String) :
    Except UsageFault (Option String) :=
  if current.isSome then .error (.repeated s)
  else if value = "" then .error (.emptyPath (.setting s))
  else .ok (some value)

def number (s : String) : Except String Nat :=
  (Text.Numeral.read 10 Word.limit s.toList).mapError Text.Numeral.Fault.message

def decimal (s : String) : Except String Float :=
  (Decimal.read s.toList).mapError Decimal.Literal.Fault.message

def text (s : String) : Except String String :=
  .ok s

def named {α : Type} (read : String → Except Error α) (s : String) : Except String α :=
  (read s).mapError Error.message

def set (g : Given) (s : Setting) (v : String) : Except UsageFault Given := do
  match s with
  | .log => return { g with log := ← oncePath s g.log v }
  | .step => return { g with step := ← once s g.step number v }
  | .marker => return { g with marker := ← once s g.marker number v }
  | .start => return { g with start := ← once s g.start number v }
  | .stepSize => return { g with stepSize := ← once s g.stepSize number v }
  | .count => return { g with count := ← once s g.count number v }
  | .proj =>
    let read := named fun t => Selection.read t.toList
    return { g with selection := ← once s g.selection read v }
  | .method => return { g with method := ← once s g.method (named Aggregation.read) v }
  | .style => return { g with style := ← once s g.style (named Style.read) v }
  | .lineStyle => return { g with lineStyle := ← once s g.lineStyle (named LineStyle.read) v }
  | .stride => return { g with stride := ← once s g.stride number v }
  | .surfaceLinewidth => return { g with edgeWidth := ← once s g.edgeWidth decimal v }
  | .vmin => return { g with low := ← once s g.low decimal v }
  | .vmax => return { g with high := ← once s g.high decimal v }
  | .color => return { g with colour := ← once s g.colour text v }
  | .markerColor => return { g with markerColour := ← once s g.markerColour text v }
  | .title => return { g with title := ← once s g.title text v }
  | .xLabel => return { g with xLabel := ← once s g.xLabel text v }
  | .yLabel => return { g with yLabel := ← once s g.yLabel text v }
  | .zLabel => return { g with zLabel := ← once s g.zLabel text v }
  | .out => return { g with folder := ← oncePath s g.folder v }
  | .format => return { g with format := ← once s g.format (named Format.read) v }

def assign (g : Given) (slot : Slot) (v : String) : Except UsageFault Given :=
  match slot with
  | .setting s => g.set s v
  | .file => if v = "" then .error (.emptyPath .file) else .ok { g with file := some v }

def request (g : Given) : Request :=
  let standard : Appearance := {}
  { style := g.style.getD .line
    selection := g.selection.getD .unprojected
    method := g.method.getD .standard
    labels := ⟨g.xLabel, g.yLabel, g.zLabel⟩
    title := g.title
    appearance :=
      { stride := g.stride.getD standard.stride
        edgeWidth := g.edgeWidth.getD standard.edgeWidth
        lineStyle := g.lineStyle.getD standard.lineStyle
        colour := g.colour.getD standard.colour
        markerColour := g.markerColour.getD standard.markerColour
        low := g.low
        high := g.high } }

end Given
end FieldPlot.Command
