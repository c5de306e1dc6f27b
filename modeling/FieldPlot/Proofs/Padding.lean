import FieldPlot.Proofs.Cutting
import FieldPlot.Proofs.Lines
import FieldPlot.Proofs.Shape

/-!
Padding of texts. Separators and blanks behind a line are fields without a character, or are stripped
from the last field; a line of padding alone holds nothing. So a recording depends on no padding, be it
behind the header, behind a step or on lines of its own.
-/
namespace FieldPlot

theorem Text.stripBoth_concat {α : Type} {drop : α → Bool} (s : List α) {x : α}
    (dropped : drop x = true) : stripBoth drop (s ++ [x]) = stripBoth drop s := by
  rw [stripBoth, stripBoth, List.dropWhile_append]
  cases s.dropWhile drop <;> simp [dropped]

namespace Table

def isPadding (b : UInt8) : Bool :=
  b == 32 || b == 9 || b == comma

/-- The lines behind a header, with padding behind any of them and lines of padding anywhere. -/
inductive PaddedLines : List (List UInt8) → List (List UInt8) → Prop where
  | nil : PaddedLines [] []
  | blank {lines padded : List (List UInt8)} {padding : List UInt8}
      (pads : ∀ b ∈ padding, isPadding b = true) (rest : PaddedLines lines padded) :
      PaddedLines lines (padding :: padded)
  | line (line : List UInt8) {lines padded : List (List UInt8)} {padding : List UInt8}
      (pads : ∀ b ∈ padding, isPadding b = true) (rest : PaddedLines lines padded) :
      PaddedLines (line :: lines) ((line ++ padding) :: padded)

/-- The lines of a table, with padding from the header on, which is the first line that is not empty. -/
inductive PaddedFromHeader : List (List UInt8) → List (List UInt8) → Prop where
  | empty {lines padded : List (List UInt8)} (rest : PaddedFromHeader lines padded) :
      PaddedFromHeader ([] :: lines) ([] :: padded)
  | header {header : List UInt8} {lines padded : List (List UInt8)} {padding : List UInt8}
      (filled : header ≠ []) (pads : ∀ b ∈ padding, isPadding b = true)
      (rest : PaddedLines lines padded) :
      PaddedFromHeader (header :: lines) ((header ++ padding) :: padded)

def markOf (bytes : List UInt8) : List UInt8 :=
  if Text.Utf8.mark <+: bytes then Text.Utf8.mark else []

/-- The lines of a table behind the mark, where only line feeds end lines. -/
def linesOf (bytes : List UInt8) : List (List UInt8) :=
  (bytes.drop (markOf bytes).length).splitOn lineFeed

def Padded (bytes padded : List UInt8) : Prop :=
  ∃ lines, PaddedFromHeader (linesOf bytes) lines ∧
    padded = markOf bytes ++ [lineFeed].intercalate lines

theorem unbroken_of_padding {padding : List UInt8} (pads : ∀ b ∈ padding, isPadding b = true) :
    Scanner.Unbroken padding where
  noQuote := fun member => absurd (pads quote member) (by decide)
  noBreak := by
    intro b member
    have pad := pads b member
    simp only [isPadding, Bool.or_eq_true, beq_iff_eq] at pad
    rcases pad with (rfl | rfl) | rfl <;> decide

theorem PaddedLines.unbroken {lines padded : List (List UInt8)} (pads : PaddedLines lines padded)
    (unbroken : ∀ line ∈ lines, Scanner.Unbroken line) :
    ∀ line ∈ padded, Scanner.Unbroken line := by
  induction pads with
  | nil => exact unbroken
  | blank pads _ ih => exact List.forall_mem_cons.mpr ⟨unbroken_of_padding pads, ih unbroken⟩
  | line _ pads _ ih =>
    obtain ⟨first, others⟩ := List.forall_mem_cons.mp unbroken
    exact List.forall_mem_cons.mpr ⟨first.append (unbroken_of_padding pads), ih others⟩

theorem PaddedFromHeader.unbroken {lines padded : List (List UInt8)}
    (pads : PaddedFromHeader lines padded) (unbroken : ∀ line ∈ lines, Scanner.Unbroken line) :
    ∀ line ∈ padded, Scanner.Unbroken line := by
  induction pads with
  | empty _ ih =>
    obtain ⟨first, others⟩ := List.forall_mem_cons.mp unbroken
    exact List.forall_mem_cons.mpr ⟨first, ih others⟩
  | header _ pads rest =>
    obtain ⟨first, others⟩ := List.forall_mem_cons.mp unbroken
    exact List.forall_mem_cons.mpr ⟨first.append (unbroken_of_padding pads), rest.unbroken others⟩

theorem exists_behind_line (line : List UInt8) (lines : List (List UInt8)) :
    ∃ tail, [lineFeed].intercalate (line :: lines) = line ++ tail ∧
      ∀ b ∈ tail.head?, b = lineFeed := by
  cases lines with
  | nil => exact ⟨[], by simp, by simp⟩
  | cons next lines => exact ⟨lineFeed :: [lineFeed].intercalate (next :: lines), by simp, by simp⟩

/-- The mark has no byte of padding and no line feed, so it comes before all padding. -/
theorem PaddedFromHeader.mark_isPrefix {lines padded : List (List UInt8)}
    (pads : PaddedFromHeader lines padded)
    (marked : Text.Utf8.mark <+: [lineFeed].intercalate padded) :
    Text.Utf8.mark <+: [lineFeed].intercalate lines := by
  have feed : lineFeed ∉ Text.Utf8.mark := by decide
  cases pads with
  | @empty _ padded rest =>
    obtain ⟨tail, parts, first⟩ := exists_behind_line [] padded
    rw [parts] at marked
    have inside := mark_isPrefix_of_append (fun b here => first b here ▸ feed) marked
    exact inside.trans (List.nil_prefix)
  | @header header lines padded padding _ pads _ =>
    obtain ⟨tail, parts, first⟩ := exists_behind_line (header ++ padding) padded
    obtain ⟨tail', parts', _⟩ := exists_behind_line header lines
    rw [parts, List.append_assoc] at marked
    have new : ∀ b ∈ (padding ++ tail).head?, b ∉ Text.Utf8.mark := by
      intro b here
      cases padding with
      | nil => exact first b here ▸ feed
      | cons c padding =>
        obtain rfl : c = b := Option.some.inj here
        exact not_mem_mark (by decide) (pads c List.mem_cons_self)
    rw [parts']
    exact (mark_isPrefix_of_append new marked).trans (List.prefix_append _ _)

section Scanned

variable {bytes : List UInt8}

theorem joined_lines (bytes : List UInt8) :
    markOf bytes ++ [lineFeed].intercalate (linesOf bytes) = bytes := by
  rw [linesOf, List.intercalate_splitOn, markOf]
  split
  · rename_i marked
    exact List.prefix_iff_eq_append.mp marked
  · rfl

theorem fronts_markOf {rest : List UInt8}
    (kept : Text.Utf8.mark <+: rest → Text.Utf8.mark <+: [lineFeed].intercalate (linesOf bytes)) :
    Fronts (markOf bytes) rest := by
  have whole := joined_lines bytes
  by_cases marked : Text.Utf8.mark <+: bytes
  · exact Or.inl (if_pos marked)
  · have none : markOf bytes = [] := if_neg marked
    rw [none, List.nil_append] at whole
    exact Or.inr ⟨none, fun starts => marked (whole ▸ kept starts)⟩

theorem unbroken_linesOf (noQuote : quote ∉ bytes) (noReturn : 13 ∉ bytes) :
    ∀ line ∈ linesOf bytes, Scanner.Unbroken line := by
  intro line member
  have inside : ∀ b ∈ line, b ∈ bytes ∧ b ≠ lineFeed := fun b here =>
    (Text.forall_mem_of_mem_splitOn member b here).imp_left List.mem_of_mem_drop
  refine ⟨fun here => noQuote (inside quote here).1, fun b here => ?_⟩
  obtain ⟨there, other⟩ := inside b here
  have noReturn : b ≠ 13 := fun same => noReturn (same ▸ there)
  simpa [isBreak] using ⟨other, noReturn⟩

theorem scan_of_unbroken {lines : List (List UInt8)}
    (unbroken : ∀ line ∈ lines, Scanner.Unbroken line)
    (fronts : Fronts (markOf bytes) ([lineFeed].intercalate lines)) :
    (scan (markOf bytes ++ [lineFeed].intercalate lines)).map Record.fields = rowsOf lines := by
  have breaks : ∀ b ∈ [lineFeed], isBreak b = true := List.forall_mem_singleton.mpr rfl
  have closing : ∀ b ∈ ([] : List UInt8), isBreak b = true := by simp
  have scanned := scan_of_lines unbroken (List.cons_ne_nil _ _) breaks closing (by rwa [List.append_nil])
  rwa [List.append_nil] at scanned

end Scanned

end Table

namespace Recording

open Table (Record comma rowsOf)

variable {header : Header}

def Agree (fields others : List (List UInt8)) : Prop :=
  ∀ texts, Filled fields texts ↔ Filled others texts

theorem filled_cons {field : List UInt8} {fields : List (List UInt8)} {texts : List (List Char)} :
    Filled (field :: fields) texts ↔ ∃ text more, Record.decodeField field = .ok text ∧
      Filled fields more ∧ texts = [text].filter (· ≠ []) ++ more := by
  constructor
  · rintro ⟨all, decoded, rfl⟩
    obtain ⟨text, others, first, further, rfl⟩ := List.forall₂_cons_left_iff.mp decoded
    exact ⟨text, _, first, ⟨others, further, rfl⟩, List.filter_append [text] others⟩
  · rintro ⟨text, _, first, ⟨others, further, rfl⟩, rfl⟩
    exact ⟨text :: others, .cons first further, List.filter_append [text] others⟩

theorem Agree.append (start : List (List UInt8)) {tail tail' : List (List UInt8)}
    (agree : Agree tail tail') : Agree (start ++ tail) (start ++ tail') := by
  induction start with
  | nil => exact agree
  | cons field start ih =>
    intro texts
    simp only [List.cons_append, filled_cons, ih _]

/-- Bytes without separators behind a line go to its last field. -/
theorem exists_last_field (line : List UInt8) : ∃ fields last, ∀ more, comma ∉ more →
    (line ++ more).splitOn comma = fields ++ [last ++ more] := by
  induction line with
  | nil => exact ⟨[], [], fun more absent => List.splitOn_eq_singleton absent⟩
  | cons b line ih =>
    obtain ⟨fields, last, parts⟩ := ih
    by_cases separator : b = comma
    · refine ⟨[] :: fields, last, fun more absent => ?_⟩
      rw [List.cons_append, List.splitOn_cons_eq_if_modifyHead, if_pos (by simpa using separator),
        parts more absent, List.cons_append]
    · have joined : ∀ more, comma ∉ more →
          (b :: line ++ more).splitOn comma = (fields ++ [last ++ more]).modifyHead (b :: ·) := by
        intro more absent
        rw [List.cons_append, List.splitOn_cons_eq_if_modifyHead, if_neg (by simpa using separator),
          parts more absent]
      cases fields with
      | nil => exact ⟨[], b :: last, joined⟩
      | cons field fields => exact ⟨(b :: field) :: fields, last, joined⟩

theorem agree_of_byte (line : List UInt8) {b : UInt8} (pads : Table.isPadding b = true) :
    Agree (line.splitOn comma) ((line ++ [b]).splitOn comma) := by
  by_cases separator : b = comma
  · -- One field more, without a byte.
    subst separator
    have empty : Agree [] [[]] := by
      intro texts
      rw [filled_cons]
      constructor
      · exact fun filled => ⟨[], texts, rfl, filled, rfl⟩
      · rintro ⟨text, more, decoded, filled, rfl⟩
        obtain rfl : [] = text := Except.ok.inj decoded
        exact filled
    rw [List.splitOn_append_cons_self, List.splitOn_nil]
    simpa using empty.append (line.splitOn comma)
  · -- The last field has one blank more, which is stripped.
    have blank : Text.isBlankByte b = true := by
      simp only [Table.isPadding, Bool.or_eq_true, beq_iff_eq, separator, or_false] at pads
      rcases pads with rfl | rfl <;> decide
    obtain ⟨fields, last, parts⟩ := exists_last_field line
    have whole := parts [] List.not_mem_nil
    rw [List.append_nil, List.append_nil] at whole
    rw [whole, parts [b] (by simpa using Ne.symm separator)]
    apply Agree.append
    intro texts
    have same : Record.decodeField (last ++ [b]) = Record.decodeField last := by
      rw [Record.decodeField, Text.stripBoth_concat last blank, Record.decodeField]
    simp only [filled_cons, same]

theorem agree_of_padding (line : List UInt8) {padding : List UInt8}
    (pads : ∀ b ∈ padding, Table.isPadding b = true) :
    Agree (line.splitOn comma) ((line ++ padding).splitOn comma) := by
  induction padding generalizing line with
  | nil =>
    intro texts
    rw [List.append_nil]
  | cons b padding ih =>
    obtain ⟨first, others⟩ := List.forall_mem_cons.mp pads
    intro texts
    rw [agree_of_byte line first texts, ih (line ++ [b]) others texts, List.append_assoc,
      List.singleton_append]

def bare (fields : List (List UInt8)) : Record :=
  ⟨0, 1, 0, fields⟩

/-- The record of a line without quotes, also of an empty line, which a table has no record for. -/
def recordOfLine (line : List UInt8) : Record :=
  bare (line.splitOn comma)

theorem Agree.holds_iff {fields others : List (List UInt8)} (agree : Agree fields others)
    (found : Option (Float × List Float)) :
    Holds header (bare fields) found ↔ Holds header (bare others) found :=
  ⟨Holds.of_filled fun texts => (agree texts).mp, Holds.of_filled fun texts => (agree texts).mpr⟩

theorem Agree.declares_iff {fields others : List (List UInt8)} (agree : Agree fields others) :
    Declares (bare fields) header ↔ Declares (bare others) header := by
  simp only [Declares, filledFields_eq_ok_iff, bare, agree _]

theorem holds_of_padding {padding : List UInt8} (pads : ∀ b ∈ padding, Table.isPadding b = true) :
    Holds header (recordOfLine padding) none :=
  ((agree_of_padding [] pads).holds_iff none).mp (.nothing rfl)

namespace HoldSteps

variable {r r' : Record} {records further : List Record} {steps : List (Float × List Float)}

theorem cons_of_nothing (blank : Holds header r none) :
    HoldSteps header (r :: records) steps ↔ HoldSteps header records steps := by
  refine ⟨fun hold => ?_, .nothing blank⟩
  cases hold with
  | nothing _ rest => exact rest
  | step holds _ =>
    have same := (readStep_of_holds blank).symm.trans (readStep_of_holds holds)
    simp at same

theorem cons_congr (first : ∀ found, Holds header r found ↔ Holds header r' found)
    (rest : ∀ steps, HoldSteps header records steps ↔ HoldSteps header further steps) :
    HoldSteps header (r :: records) steps ↔ HoldSteps header (r' :: further) steps := by
  constructor
  · intro hold
    cases hold with
    | nothing blank others => exact .nothing ((first _).mp blank) ((rest _).mp others)
    | step holds others => exact .step ((first _).mp holds) ((rest _).mp others)
  · intro hold
    cases hold with
    | nothing blank others => exact .nothing ((first _).mpr blank) ((rest _).mpr others)
    | step holds others => exact .step ((first _).mpr holds) ((rest _).mpr others)

theorem rowsOf_iff (lines : List (List UInt8)) : ∀ steps,
    HoldSteps header ((rowsOf lines).map bare) steps ↔
      HoldSteps header (lines.map recordOfLine) steps := by
  induction lines with
  | nil => exact fun steps => Iff.rfl
  | cons line lines ih =>
    intro steps
    by_cases empty : line = []
    · subst empty
      have none : ∀ b ∈ ([] : List UInt8), Table.isPadding b = true := by simp
      rw [List.map_cons, cons_of_nothing (holds_of_padding none), ← ih steps]
      rfl
    · rw [Table.rowsOf_cons_of_ne_nil empty]
      exact cons_congr (fun found => Iff.rfl) ih

theorem padded_iff {lines padded : List (List UInt8)} (pads : Table.PaddedLines lines padded) :
    ∀ steps, HoldSteps header (lines.map recordOfLine) steps ↔
      HoldSteps header (padded.map recordOfLine) steps := by
  induction pads with
  | nil => exact fun steps => Iff.rfl
  | blank pads _ ih =>
    intro steps
    rw [List.map_cons, cons_of_nothing (holds_of_padding pads), ih steps]
  | line line pads _ ih =>
    intro steps
    exact cons_congr (agree_of_padding line pads).holds_iff ih

end HoldSteps

def RowsHold : List (List (List UInt8)) → Recording → Prop
  | [], _ => False
  | first :: rest, recording => Declares (bare first) recording.header ∧
      HoldSteps recording.header (rest.map bare) (recording.times.zip recording.frames)

theorem eq_of_parts {recording other : Recording} (header : recording.header = other.header)
    (times : recording.times = other.times) (frames : recording.frames = other.frames) :
    recording = other := by
  cases recording
  cases other
  subst header times frames
  rfl

theorem declares_bare_iff {bytes : List UInt8} {first : Record} {rest : List Record}
    (scanned : Table.scan bytes = first :: rest) :
    Declares first header ↔ Declares (bare first.fields) header := by
  simp only [Declares, filledFields_eq_ok_iff, bare, Table.line_of_scan scanned]

theorem map_fields_bare (rows : List (List (List UInt8))) :
    (rows.map bare).map Record.fields = rows := by
  rw [List.map_map]
  exact List.map_id rows

theorem read_eq_ok_iff_rowsHold {bytes : List UInt8} {rows : List (List (List UInt8))}
    (scanned : (Table.scan bytes).map Record.fields = rows) (recording : Recording) :
    read bytes = .ok recording ↔ RowsHold rows recording := by
  constructor
  · intro done
    obtain ⟨first, rest, header, steps, records, declares, hold, rfl, times, frames⟩ :=
      parts_of_read done
    have whole : recording.times.zip recording.frames = steps := by
      rw [times, frames]
      exact (List.zip_of_prod rfl rfl).symm
    rw [← scanned, records]
    refine ⟨(declares_bare_iff records).mp declares, ?_⟩
    rw [whole]
    exact hold.congr (map_fields_bare _).symm
  · intro held
    cases records : Table.scan bytes with
    | nil =>
      rw [← scanned, records] at held
      exact held.elim
    | cons first rest =>
      rw [← scanned, records] at held
      obtain ⟨declares, hold⟩ := held
      obtain ⟨other, done, header, times, frames⟩ := read_of_holdSteps records
        ((declares_bare_iff records).mpr declares) (hold.congr (map_fields_bare _))
      rw [List.map_fst_zip (le_of_eq recording.times_length)] at times
      rw [List.map_snd_zip (ge_of_eq recording.times_length)] at frames
      rw [done, eq_of_parts header times frames]

theorem rowsHold_iff_of_padded {lines padded : List (List UInt8)}
    (pads : Table.PaddedFromHeader lines padded) (recording : Recording) :
    RowsHold (rowsOf lines) recording ↔ RowsHold (rowsOf padded) recording := by
  induction pads with
  | empty _ ih => exact ih
  | @header header lines padded padding filled pads rest =>
    have agree := agree_of_padding header pads
    have longer : header ++ padding ≠ [] := by simp [filled]
    rw [Table.rowsOf_cons_of_ne_nil filled, Table.rowsOf_cons_of_ne_nil longer, RowsHold, RowsHold,
      agree.declares_iff, HoldSteps.rowsOf_iff, HoldSteps.rowsOf_iff, HoldSteps.padded_iff rest]

/-- Padding changes nothing: where only line feeds end lines and nothing is quoted, a text with
    separators and blanks behind its lines and with lines of them behind its header is read as the same
    recording, or as none just where the text is. -/
theorem padding_changes_nothing {bytes padded : List UInt8} (noQuote : Table.quote ∉ bytes)
    (noReturn : 13 ∉ bytes) (pads : Table.Padded bytes padded) (recording : Recording) :
    read padded = .ok recording ↔ read bytes = .ok recording := by
  obtain ⟨lines, fromHeader, rfl⟩ := pads
  have unbroken := Table.unbroken_linesOf noQuote noReturn
  have rows := Table.scan_of_unbroken unbroken (Table.fronts_markOf id)
  rw [Table.joined_lines] at rows
  have rows' := Table.scan_of_unbroken (fromHeader.unbroken unbroken)
    (Table.fronts_markOf fromHeader.mark_isPrefix)
  rw [read_eq_ok_iff_rowsHold rows, read_eq_ok_iff_rowsHold rows',
    rowsHold_iff_of_padded fromHeader]

def unpadded : List UInt8 :=
  Text.Utf8.mark ++ Text.Utf8.encode "\nMat,CV_64F,2\n1ms,1,2\n2s,3,4".toList

def padded : List UInt8 :=
  Text.Utf8.mark ++ Text.Utf8.encode "\nMat,CV_64F,2 ,\n\t,\n1ms,1,2,,\n\n2s,3,4 \n, ,".toList

theorem padded_unpadded : Table.Padded unpadded padded := by
  have spaced : ∀ b ∈ [32, Table.comma], Table.isPadding b = true := List.all_eq_true.mp rfl
  have tabbed : ∀ b ∈ [9, Table.comma], Table.isPadding b = true := List.all_eq_true.mp rfl
  have commas : ∀ b ∈ [Table.comma, Table.comma], Table.isPadding b = true := List.all_eq_true.mp rfl
  have space : ∀ b ∈ [32], Table.isPadding b = true := List.all_eq_true.mp rfl
  have none : ∀ b ∈ ([] : List UInt8), Table.isPadding b = true := by simp
  have last : ∀ b ∈ [Table.comma, 32, Table.comma], Table.isPadding b = true := List.all_eq_true.mp rfl
  have lines : Table.linesOf unpadded = [[], Text.Utf8.encode "Mat,CV_64F,2".toList,
      Text.Utf8.encode "1ms,1,2".toList, Text.Utf8.encode "2s,3,4".toList] := by
    decide +kernel
  rw [Table.Padded, lines]
  exact ⟨_, .empty (.header (by decide) spaced (.blank tabbed (.line _ commas
    (.blank none (.line _ space (.blank last .nil)))))), by decide +kernel⟩

theorem read_padded : ∃ recording, read padded = .ok recording ∧ recording.frames = [[1, 2], [3, 4]] := by
  have frames : (read unpadded).map Recording.frames = .ok [[1, 2], [3, 4]] := by decide +kernel
  obtain ⟨recording, done, same⟩ := map_eq_ok frames
  exact ⟨recording,
    (padding_changes_nothing (by decide +kernel) (by decide +kernel) padded_unpadded recording).mpr done,
    same⟩

end Recording
end FieldPlot
