/-!
What a text shows without a terminal that obeys its control sequences. A sequence starts with the
escape character; which characters belong to it depends on how it goes on. `plain` keeps what stands
outside of sequences, other control characters than white space apart.
-/
namespace FieldPlot.Text.Terminal

def escape : Char := '\x1b'

inductive Mode where
  | text
  | escape
  /-- Behind the escape character and one that announces a further one. -/
  | announced
  /-- Parameters, which a letter ends. -/
  | parameters
  /-- A command for the system, which a bell ends. -/
  | command
  /-- Parameters of a string, which starts behind the letter that ends them. -/
  | heading
  /-- A string that is not shown. -/
  | hidden
deriving DecidableEq, Repr

/-- White space that a terminal acts upon even inside a sequence. -/
def isLayout (c : Char) : Bool :=
  c == '\t' || c == '\n' || c == '\x0c' || c == '\r'

def isShown (c : Char) : Bool :=
  isLayout c || (' ' ≤ c && c ≠ '\x7f')

/-- A string is ended by the byte that stands for its end, even inside a longer character. -/
def endsHidden (c : Char) : Bool :=
  (String.utf8EncodeChar c).contains 0x9C

def isFinal (c : Char) : Bool :=
  '@' ≤ c && c ≤ '~'

def Mode.behindEscape (c : Char) : Mode :=
  if c = '[' then .parameters
  else if c = ']' then .command
  else if c = 'P' then .heading
  else if c = 'X' ∨ c = '^' ∨ c = '_' then .hidden
  else if ' ' ≤ c ∧ c ≤ '/' then .announced
  else if '0' ≤ c ∧ c ≤ '~' then .text
  else .escape

def Mode.next (m : Mode) (c : Char) : Mode :=
  if c = Terminal.escape then .escape
  else if c = '\x18' ∨ c = '\x1a' then .text
  else
    match m with
    | text => text
    | escape => behindEscape c
    | announced => if '0' ≤ c ∧ c ≤ '~' then text else announced
    | parameters => if isFinal c then text else parameters
    | command => if c = '\x07' then text else command
    | heading => if isFinal c then hidden else heading
    | hidden => if endsHidden c then text else hidden

def Mode.shows (m : Mode) (c : Char) : Bool :=
  match m with
  | text => isShown c
  | escape => isLayout c
  | announced => isLayout c
  | parameters => isLayout c
  | command => false
  | heading => false
  | hidden => false

structure Filter where
  mode : Mode := .text
  /-- Whether the last character was shown. Then the next one is taken as outside of sequences. -/
  outside : Bool := false
deriving DecidableEq, Repr

/-- One character further, and whether it is shown. A shown character beyond ASCII ends any
    sequence. -/
def Filter.step (f : Filter) (c : Char) : Filter × Bool :=
  if (f.outside && isShown c) || f.mode.shows c then
    (⟨if c ≤ '\x7f' then f.mode else .text, true⟩, true)
  else (⟨f.mode.next c, false⟩, false)

def Filter.run : Filter → List Char → List Char
  | _, [] => []
  | f, c :: rest =>
    match f.step c with
    | (g, true) => c :: g.run rest
    | (g, false) => g.run rest

def plain (s : List Char) : List Char :=
  ({} : Filter).run s

def strong (s : String) : String :=
  escape.toString ++ "[1m" ++ s ++ escape.toString ++ "[0m"

end FieldPlot.Text.Terminal
