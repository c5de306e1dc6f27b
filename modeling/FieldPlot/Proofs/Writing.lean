import FieldPlot.Proofs.Lines
import FieldPlot.Proofs.Multiplication
import FieldPlot.Proofs.Numerals
import FieldPlot.Proofs.Reading

/-!
Recordings that are written as lines. A header of plain fields and steps whose numbers are written in
any way that is read as these numbers are read again as they are. What is refused is a header with a
product of extents that leaves the range of counts on the way, even where a later extent zero brings
the product back to zero.
-/
namespace FieldPlot

open Text (Trimmed)
open Text.Utf8 (encode)

structure Plain (s : List Char) : Prop where
  filled : s ≠ []
  noComma : ',' ∉ s
  noQuote : '"' ∉ s
  noFeed : '\n' ∉ s
  noReturn : '\r' ∉ s
  trimmed : Trimmed s

namespace Plain

variable {s : List Char}

theorem of_solid (filled : s ≠ [])
    (solid : ∀ c ∈ s, c ≠ ',' ∧ c ≠ '"' ∧ Text.isBlank c = false) : Plain s where
  filled := filled
  noComma := fun member => (solid _ member).1 rfl
  noQuote := fun member => (solid _ member).2.1 rfl
  noFeed := fun member => absurd (solid _ member).2.2 (by decide)
  noReturn := fun member => absurd (solid _ member).2.2 (by decide)
  trimmed := ⟨fun c first => (solid c (List.mem_of_head? first)).2.2,
    fun c last => (solid c (List.mem_of_getLast? last)).2.2⟩

theorem clean (plain : Plain s) : Table.Scanner.Clean (encode s) where
  noComma := fun member => plain.noComma (Text.Utf8.mem_encode_of_small member (by decide))
  noQuote := fun member => plain.noQuote (Text.Utf8.mem_encode_of_small member (by decide))
  noBreak := by
    intro b member
    rw [Bool.eq_false_iff]
    intro breaks
    rw [Table.isBreak, Bool.or_eq_true, beq_iff_eq, beq_iff_eq] at breaks
    cases breaks with
    | inl feed =>
      subst feed
      exact plain.noFeed (Text.Utf8.mem_encode_of_small member (by decide))
    | inr back =>
      subst back
      exact plain.noReturn (Text.Utf8.mem_encode_of_small member (by decide))

theorem decodeField (plain : Plain s) : Table.Record.decodeField (encode s) = .ok s := by
  rw [Table.Record.decodeField, plain.trimmed.stripBoth_encode, Text.Utf8.decode_encode]
  exact congrArg Except.ok plain.trimmed.trim

end Plain

theorem Decimal.Literal.IsPart.solid {c : Char} (part : IsPart c) :
    c ≠ ',' ∧ c ≠ '"' ∧ Text.isBlank c = false := by
  refine ⟨?_, ?_, part.not_isBlank⟩
  · rintro rfl
    exact absurd part (by decide)
  · rintro rfl
    exact absurd part (by decide)

theorem plain_of_numeral (n : Nat) : Plain (Text.Numeral.write n) := by
  apply Plain.of_solid Nat.toDigits_ne_nil
  intro c member
  have digit : c.isDigit = true := Text.Numeral.isDigit_of_mem_write member
  have part : Decimal.Literal.IsPart c := .of_isDigit digit
  exact part.solid

namespace Recording

open Table (Record joined)

structure Spelling where
  value : Float
  text : List Char
  reads : Decimal.read text = .ok value

/-- A step as it is written; the unit `ms` may stand behind the time. -/
structure Entry where
  time : Spelling
  unit : Bool
  values : List Spelling

namespace Spelling

theorem parts (spelling : Spelling) :
    spelling.text ≠ [] ∧ ∀ c ∈ spelling.text, Decimal.Literal.IsPart c := by
  have done := spelling.reads
  unfold Decimal.read at done
  cases read : Decimal.Literal.read spelling.text with
  | error cause =>
    rw [read] at done
    contradiction
  | ok literal => exact Decimal.Literal.parts_of_read read

theorem plain (spelling : Spelling) : Plain spelling.text :=
  .of_solid spelling.parts.1 fun c member => (spelling.parts.2 c member).solid

theorem no_unit (spelling : Spelling) : 's' ∉ spelling.text := by
  intro member
  exact absurd (spelling.parts.2 's' member) (by decide)

end Spelling

theorem withoutEnding?_of_not_mem {s : List Char} (absent : 's' ∉ s) (unit : List Char) :
    Text.withoutEnding? (unit ++ ['s']) s = none := by
  apply if_neg
  rw [List.isSuffixOf_iff_suffix]
  intro ends
  exact absent (ends.subset (by simp))

theorem withoutEnding?_append (s ending : List Char) :
    Text.withoutEnding? ending (s ++ ending) = some s := by
  rw [Text.withoutEnding?, if_pos (List.isSuffixOf_iff_suffix.mpr (List.suffix_append s ending))]
  simp

namespace Entry

def timeText (entry : Entry) : List Char :=
  entry.time.text ++ if entry.unit then ['m', 's'] else []

def fields (entry : Entry) : List (List Char) :=
  entry.timeText :: entry.values.map Spelling.text

def step (entry : Entry) : Float × List Float :=
  (entry.time.value, entry.values.map Spelling.value)

variable (entry : Entry)

theorem plain_timeText : Plain entry.timeText := by
  apply Plain.of_solid
  · exact List.append_ne_nil_of_left_ne_nil entry.time.parts.1 _
  · unfold timeText
    rw [List.forall_mem_append]
    refine ⟨fun c member => (entry.time.parts.2 c member).solid, ?_⟩
    cases entry.unit with
    | false => simp
    | true => exact List.forall_mem_cons.mpr ⟨by decide, List.forall_mem_singleton.mpr (by decide)⟩

theorem plain_fields : ∀ field ∈ entry.fields, Plain field := by
  refine List.forall_mem_cons.mpr ⟨entry.plain_timeText, ?_⟩
  rw [List.forall_mem_map]
  exact fun spelling _ => spelling.plain

theorem readTime_timeText : readTime entry.timeText = some entry.time.value := by
  have number : ∀ scale : Float, scale = 1 →
      ((Decimal.read (Text.trim entry.time.text)).toOption).map (· * scale) =
        some entry.time.value := by
    rintro scale rfl
    rw [entry.time.plain.trimmed.trim, entry.time.reads]
    exact congrArg some (Binary64.mul_one _)
  have trimmed := entry.plain_timeText.trimmed.trim
  -- No number ends in the letter of a unit, so a unit is found just where one was written.
  simp only [readTime, trimmed]
  unfold timeText
  cases entry.unit with
  | true =>
    simp only [if_true, withoutEnding?_append]
    exact number 1 rfl
  | false =>
    have milli := withoutEnding?_of_not_mem entry.time.no_unit ['m']
    have plain := withoutEnding?_of_not_mem entry.time.no_unit []
    simp only [List.singleton_append, List.nil_append] at milli plain
    simp only [Bool.false_eq_true, if_false, List.append_nil, milli, plain]
    exact number 1 rfl

end Entry

def headerFields (h : Header) : List (List Char) :=
  h.kind.toList :: h.elementType.toList :: h.extents.map Text.Numeral.write

structure Writable (h : Header) : Prop where
  kind : Plain h.kind.toList
  elementType : Plain h.elementType.toList
  unmarked : h.kind.toList.head? ≠ some '\uFEFF'
  counts : ∀ e ∈ h.extents, e ≤ Word.limit

def rows (h : Header) (entries : List Entry) : List (List (List Char)) :=
  headerFields h :: entries.map Entry.fields

def written (ending final : List Char) (h : Header) (entries : List Entry) : List Char :=
  ending.intercalate ((rows h entries).map [','].intercalate) ++ final

theorem encode_intercalate (separator : List Char) (parts : List (List Char)) :
    encode (separator.intercalate parts) = (encode separator).intercalate (parts.map encode) := by
  induction parts with
  | nil => rfl
  | cons part parts ih =>
    cases parts with
    | nil => simp
    | cons next parts =>
      rw [List.intercalate_cons_cons, Text.Utf8.encode_append, Text.Utf8.encode_append, ih]
      simp

theorem encode_written (ending final : List Char) (h : Header) (entries : List Entry) :
    encode (written ending final h entries) =
      joined (encode ending) (encode final) ((rows h entries).map fun row => row.map encode) := by
  have line : ∀ row : List (List Char),
      encode ([','].intercalate row) = [Table.comma].intercalate (row.map encode) :=
    encode_intercalate [',']
  rw [written, Text.Utf8.encode_append, encode_intercalate, joined, List.map_map, List.map_map]
  simp only [Function.comp_def, line]

section Lines

variable {h : Header} (writable : Writable h)
include writable

theorem plain_headerFields : ∀ field ∈ headerFields h, Plain field := by
  refine List.forall_mem_cons.mpr ⟨writable.kind, List.forall_mem_cons.mpr ⟨writable.elementType, ?_⟩⟩
  rw [List.forall_mem_map]
  exact fun extent _ => plain_of_numeral extent

theorem plain_rows (entries : List Entry) :
    ∀ row ∈ rows h entries, row ≠ [] ∧ ∀ field ∈ row, Plain field := by
  refine List.forall_mem_cons.mpr ⟨⟨by simp [headerFields], plain_headerFields writable⟩, ?_⟩
  rw [List.forall_mem_map]
  exact fun entry _ => ⟨by simp [Entry.fields], entry.plain_fields⟩

end Lines

theorem breaks_of_encode {breaks : List Char} (all : ∀ c ∈ breaks, c = '\n' ∨ c = '\r') :
    ∀ b ∈ encode breaks, Table.isBreak b = true := by
  intro b member
  obtain ⟨c, here, spelled⟩ := List.mem_flatMap.mp member
  rcases all c here with rfl | rfl
  · obtain rfl : b = 10 := List.mem_singleton.mp spelled
    rfl
  · obtain rfl : b = 13 := List.mem_singleton.mp spelled
    rfl

theorem filledFields_of_plain {r : Record} {row : List (List Char)}
    (same : r.fields = row.map encode) (plain : ∀ field ∈ row, Plain field) :
    filledFields r = .ok row := by
  have decoded : List.Forall₂ (fun field text => Record.decodeField field = .ok text)
      r.fields row := by
    rw [same, List.forall₂_map_left_iff, List.forall₂_same]
    exact fun field member => (plain field member).decodeField
  have all : row.filter (· ≠ []) = row := by
    rw [List.filter_eq_self]
    intro field member
    simpa using (plain field member).filled
  rw [filledFields_of_decoded decoded, all]

theorem holds_of_entry {h : Header} {r : Record} {entry : Entry}
    (same : r.fields = entry.fields.map encode) (count : entry.values.length = h.frameLength) :
    Holds h r (some entry.step) := by
  have numbers : List.Forall₂ (fun field v => Decimal.read field = .ok v)
      (entry.values.map Spelling.text) (entry.values.map Spelling.value) := by
    rw [List.forall₂_map_left_iff, List.forall₂_map_right_iff, List.forall₂_same]
    exact fun spelling _ => spelling.reads
  exact .step (filledFields_of_plain same entry.plain_fields) entry.readTime_timeText
    (by rw [List.length_map, count]) numbers

theorem holdSteps_of_entries {h : Header} {records : List Record} {entries : List Entry}
    (same : records.map Record.fields = entries.map fun entry => entry.fields.map encode)
    (counts : ∀ entry ∈ entries, entry.values.length = h.frameLength) :
    HoldSteps h records (entries.map Entry.step) := by
  induction entries generalizing records with
  | nil =>
    obtain rfl := List.map_eq_nil_iff.mp same
    exact .nil
  | cons entry entries ih =>
    obtain ⟨r, records, rfl, first, rest⟩ := List.map_eq_cons_iff.mp same
    obtain ⟨count, others⟩ := List.forall_mem_cons.mp counts
    exact .step (holds_of_entry first count) (ih rest others)

theorem readExtents_write (line column : Nat) {extents : List Nat}
    (counts : ∀ e ∈ extents, e ≤ Word.limit) :
    Header.readExtents line column ((extents.map Text.Numeral.write).map String.ofList) =
      .ok extents := by
  induction extents generalizing column with
  | nil => rfl
  | cons e extents ih =>
    obtain ⟨count, others⟩ := List.forall_mem_cons.mp counts
    rw [List.map_cons, List.map_cons, Header.readExtents, String.toList_ofList,
      Text.Numeral.read_write count]
    simp only [ih (column + 1) others]
    rfl

theorem ofFields_headerFields (line : Nat) {h : Header} (writable : Writable h) :
    Header.ofFields line ((headerFields h).map String.ofList) =
      if h.frameLength?.isNone then .error (.field line 3 (.hugeExtents h.extents)) else .ok h := by
  have extents := readExtents_write line 3 writable.counts
  simp only [headerFields, List.map_cons, String.ofList_toList, Header.ofFields, List.tail_cons,
    extents, bind, Except.bind, List.headD_cons]
  rfl

theorem prefix_intercalate {α : Type} (separator part : List α) (parts : List (List α)) :
    part <+: separator.intercalate (part :: parts) := by
  cases parts with
  | nil => rw [List.intercalate_singleton]
  | cons next parts =>
    rw [List.intercalate_cons_cons, List.append_assoc]
    exact List.prefix_append _ _

section Reading

variable {h : Header} (writable : Writable h) (entries : List Entry) {ending final : List Char}
  (ended : ending ≠ []) (breaks : ∀ c ∈ ending, c = '\n' ∨ c = '\r')
  (closing : ∀ c ∈ final, c = '\n' ∨ c = '\r')
include writable ended breaks closing

theorem scan_written : ∃ first rest,
    Table.scan (encode (written ending final h entries)) = first :: rest ∧ first.line = 1 ∧
      filledFields first = .ok (headerFields h) ∧
      rest.map Record.fields = entries.map fun entry => entry.fields.map encode := by
  have content : ∀ row ∈ (rows h entries).map fun row => row.map encode,
      row ≠ [] ∧ ∀ field ∈ row, field ≠ [] ∧ Table.Scanner.Clean field := by
    rw [List.forall_mem_map]
    intro row member
    obtain ⟨filled, plain⟩ := plain_rows writable entries row member
    refine ⟨mt List.map_eq_nil_iff.mp filled, ?_⟩
    rw [List.forall_mem_map]
    exact fun field here => ⟨Text.Utf8.encode_ne_nil (plain field here).filled, (plain field here).clean⟩
  have unmarked : ¬ Text.Utf8.mark <+: encode (written ending final h entries) := by
    have starts : h.kind.toList <+: written ending final h entries :=
      (prefix_intercalate _ _ _).trans ((prefix_intercalate _ _ _).trans (List.prefix_append _ _))
    exact Text.Utf8.not_mark_isPrefix_of_start starts writable.kind.filled writable.unmarked
  have scanned := Table.scan_lines content (Text.Utf8.encode_ne_nil ended) (breaks_of_encode breaks)
    (breaks_of_encode closing) (encode_written ending final h entries ▸ unmarked)
  rw [← encode_written] at scanned
  obtain ⟨first, rest, records, fields, others⟩ := List.map_eq_cons_iff.mp scanned
  refine ⟨first, rest, records, Table.line_of_scan records,
    filledFields_of_plain fields (plain_headerFields writable), ?_⟩
  rw [others, List.map_map]
  rfl

/-- A text of lines is read as the header and the steps that were written, unless a product of
    extents leaves the range of counts on the way. Then there is an extent zero, which makes the
    whole product small again, and the header is refused. -/
theorem reading_undoes_writing (fits : h.channels * h.extents.prod ≤ Word.limit)
    (counts : ∀ entry ∈ entries, entry.values.length = h.channels * h.extents.prod) :
    ((∀ k < h.rank, h.channels * (h.extents.take (k + 1)).prod ≤ Word.limit) →
      ∃ recording, read (encode (written ending final h entries)) = .ok recording ∧
        recording.header = h ∧ recording.times = entries.map (·.time.value) ∧
        recording.frames = entries.map fun entry => entry.values.map Spelling.value) ∧
    (∀ k < h.rank, Word.limit < h.channels * (h.extents.take (k + 1)).prod →
      0 ∈ h.extents ∧ read (encode (written ending final h entries)) =
        .error (.field 1 3 (.hugeExtents h.extents))) := by
  obtain ⟨first, rest, scanned, line, filled, steps⟩ :=
    scan_written writable entries ended breaks closing
  have declared := ofFields_headerFields first.line writable
  constructor
  · intro inside
    have length : h.frameLength? = some (h.channels * h.extents.prod) :=
      (h.frameLength?_eq_some_iff _).mpr ⟨rfl, inside⟩
    rw [length] at declared
    have declares : Declares first h := ⟨headerFields h, filled, declared⟩
    have size := Header.frameLength_of_some length
    have hold : HoldSteps h rest (entries.map Entry.step) :=
      holdSteps_of_entries steps fun entry member => (counts entry member).trans size.symm
    obtain ⟨recording, done, head, times, frames⟩ := read_of_holdSteps scanned declares hold
    refine ⟨recording, done, head, ?_, ?_⟩
    · rw [times, List.map_map]
      rfl
    · rw [frames, List.map_map]
      rfl
  · -- The header is refused before any step is read.
    intro k bound beyond
    have length : h.frameLength? = none := by
      rw [Option.eq_none_iff_forall_not_mem]
      intro n found
      have inside := ((h.frameLength?_eq_some_iff n).mp found).2 k bound
      omega
    refine ⟨h.zero_mem_of_overflow fits beyond, ?_⟩
    rw [length, line] at declared
    exact read_of_undeclared scanned filled (line.symm ▸ declared)

end Reading

def channelled : Header :=
  ⟨"Mat", "CV_8UC2", [1]⟩

def channelledEntries : List Entry :=
  [⟨⟨1.5, "1.5".toList, by decide +kernel⟩, true,
      [⟨10, "1e1".toList, by decide +kernel⟩, ⟨-(1 / 0), "-inf".toList, by decide +kernel⟩]⟩,
    ⟨⟨20, "20".toList, by decide +kernel⟩, false,
      [⟨0.5, ".5".toList, by decide +kernel⟩, ⟨7, "+7".toList, by decide +kernel⟩]⟩]

/-- No values at all, but the first two extents are too large together. -/
def emptied : Header :=
  ⟨"Mat", "CV_64F", [9223372036854775808, 4, 0]⟩

def emptiedEntries : List Entry :=
  [⟨⟨1, "1".toList, by decide +kernel⟩, true, []⟩]

theorem writable_channelled : Writable channelled where
  kind := .of_solid (by decide) (List.all_iff_forall_prop.mp (by decide))
  elementType := .of_solid (by decide) (List.all_iff_forall_prop.mp (by decide))
  unmarked := by decide
  counts := by decide

theorem writable_emptied : Writable emptied where
  kind := .of_solid (by decide) (List.all_iff_forall_prop.mp (by decide))
  elementType := .of_solid (by decide) (List.all_iff_forall_prop.mp (by decide))
  unmarked := by decide
  counts := by decide

theorem reading_undoes_writing_of_channels :
    (∃ recording,
      read (encode "Mat,CV_8UC2,1\r\n1.5ms,1e1,-inf\r\n20,.5,+7".toList) = .ok recording ∧
        recording.header = channelled ∧ recording.times = [1.5, 20] ∧
        recording.frames = [[10, -(1 / 0)], [0.5, 7]]) ∧
    read (encode "Mat,CV_64F,9223372036854775808,4,0\n1ms\n".toList) =
      .error (.field 1 3 (.hugeExtents emptied.extents)) := by
  have feed : ∀ c ∈ ['\n'], c = '\n' ∨ c = '\r' := by simp
  have both : ∀ c ∈ ['\r', '\n'], c = '\n' ∨ c = '\r' := by simp
  have none : ∀ c ∈ ([] : List Char), c = '\n' ∨ c = '\r' := by simp
  constructor
  · obtain ⟨whole, _⟩ := reading_undoes_writing writable_channelled channelledEntries
      (List.cons_ne_nil _ _) both none (by decide) (by decide)
    exact whole (by decide)
  · obtain ⟨_, refused⟩ := reading_undoes_writing writable_emptied emptiedEntries
      (List.cons_ne_nil _ _) feed feed (by decide) (by decide)
    exact (refused 1 (by decide) (by decide)).2

/-- A header may be refused although none of its frames holds a value. -/
theorem emptied_is_refused :
    Writable emptied ∧ emptied.channels * emptied.extents.prod = 0 ∧
      (∀ entry ∈ emptiedEntries, entry.values.length = 0) ∧
      ∀ recording, read (encode (written ['\n'] ['\n'] emptied emptiedEntries)) ≠ .ok recording := by
  refine ⟨writable_emptied, by decide, by decide, fun recording done => ?_⟩
  have fails : (read (encode (written ['\n'] ['\n'] emptied emptiedEntries))).isOk = false := by
    decide +kernel
  rw [done] at fails
  contradiction

end Recording
end FieldPlot
