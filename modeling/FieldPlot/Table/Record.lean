import FieldPlot.Error
import FieldPlot.Text.Blank
import FieldPlot.Text.Utf8

/-!
Tables as bytes: records of fields separated by commas. A line break outside quotes ends a record,
and line breaks before a record are skipped. A field that starts with a quote runs to its closing
quote, with a quote inside written twice; what follows up to the next comma or line break is taken
as it stands. `scan` reads all records; the text of their fields is decoded by `Record.texts`.
-/
namespace FieldPlot.Table

structure Record where
  /-- The header record is number zero. -/
  number : Nat
  line : Nat
  byte : Nat
  fields : List (List UInt8)
deriving DecidableEq, Repr

inductive Spot where
  /-- No byte of a record has come yet. -/
  | between
  | fieldStart
  | plain
  | quoted
  /-- Behind a quote inside quotes, which closes them unless another follows. -/
  | closed
deriving DecidableEq, Repr

structure Scanner where
  spot : Spot := .between
  /-- The bytes of the field under way, last byte first. -/
  field : List UInt8 := []
  /-- The finished fields of the record under way, last field first. -/
  fields : List (List UInt8) := []
  number : Nat := 0
  line : Nat := 1
  byte : Nat := 0
  feeds : Nat := 0
  bytes : Nat := 0
deriving DecidableEq, Repr

def quote : UInt8 := 34

def comma : UInt8 := 44

def lineFeed : UInt8 := 10

def isBreak (b : UInt8) : Bool :=
  b == 10 || b == 13

namespace Scanner

def push (s : Scanner) (b : UInt8) : Scanner :=
  { s with field := b :: s.field }

def endField (s : Scanner) : Scanner :=
  { s with spot := .fieldStart, field := [], fields := s.field.reverse :: s.fields }

def record (s : Scanner) : Record :=
  ⟨s.number, s.line, s.byte, (s.field.reverse :: s.fields).reverse⟩

def endRecord (s : Scanner) : Scanner :=
  { s with
    spot := .between, field := [], fields := []
    number := s.number + 1, line := s.feeds + 1, byte := s.bytes }

def count (s : Scanner) (b : UInt8) : Scanner :=
  { s with bytes := s.bytes + 1, feeds := s.feeds + if b == lineFeed then 1 else 0 }

def unquoted (s : Scanner) (b : UInt8) : Scanner × Option Record :=
  if b = comma then (s.endField, none)
  else if isBreak b then (s.endRecord, some s.record)
  else ({ s.push b with spot := .plain }, none)

def opening (s : Scanner) (b : UInt8) : Scanner × Option Record :=
  if b = quote then ({ s with spot := .quoted }, none) else s.unquoted b

def step (s : Scanner) (b : UInt8) : Scanner × Option Record :=
  let t := s.count b
  match s.spot with
  | .between => if isBreak b then (t, none) else t.opening b
  | .fieldStart => t.opening b
  | .plain => t.unquoted b
  | .quoted => if b = quote then ({ t with spot := .closed }, none) else (t.push b, none)
  | .closed => if b = quote then ({ t.push b with spot := .quoted }, none) else t.unquoted b

def finish (s : Scanner) : List Record :=
  if s.spot = .between then [] else [s.record]

def run : Scanner → List UInt8 → List Record × Scanner
  | s, [] => ([], s)
  | s, b :: rest =>
    match s.step b with
    | (t, none) => t.run rest
    | (t, some r) => let (records, last) := t.run rest; (r :: records, last)

theorem run_append (s : Scanner) (xs ys : List UInt8) :
    s.run (xs ++ ys) = ((s.run xs).1 ++ ((s.run xs).2.run ys).1, ((s.run xs).2.run ys).2) := by
  induction xs generalizing s with
  | nil => simp [run]
  | cons b rest ih =>
    simp only [List.cons_append, run]
    split
    · exact ih _
    · simp [ih]

end Scanner

/-- All records of a table. A byte order mark before the first is skipped. -/
def scan (bytes : List UInt8) : List Record :=
  let (records, last) :=
    if Text.Utf8.mark.isPrefixOf bytes then
      ({ bytes := Text.Utf8.mark.length } : Scanner).run (bytes.drop Text.Utf8.mark.length)
    else ({} : Scanner).run bytes
  records ++ last.finish

namespace Record

/-- Decodes fields from the given one on; blanks around them are stripped as bytes before the
    decoding and as characters after it. -/
def textsFrom (r : Record) : Nat → List (List UInt8) → Except Error (List (List Char))
  | _, [] => .ok []
  | i, field :: rest =>
    match Text.Utf8.decode (Text.stripBoth Text.isBlankByte field) with
    | .error good => .error (.brokenText ⟨r.number, r.line, r.byte, i, good⟩)
    | .ok text => (textsFrom r (i + 1) rest).map (Text.trim text :: ·)

def texts (r : Record) : Except Error (List (List Char)) :=
  r.textsFrom 0 r.fields

end Record
end FieldPlot.Table
