import FieldPlot.Figure.Request
import FieldPlot.Figure.Rows
import FieldPlot.Proofs.Cells
import FieldPlot.Proofs.Grid

/-!
Tables that were written, read again. No cell needs quotes, so the scanner finds the cells of each row
as they were written and is behind the row as at the start of the table. A row without cells is found as
one empty field, and no row is lost. Hence the table of a figure determines how its cells are printed.
-/
namespace FieldPlot

open Text.Utf8 (encode)

namespace Table

open Scanner

def SplitsInto (text : List Char) (records : List (List (List Char))) : Prop :=
  (scan (encode text)).map Record.fields = records.map (List.map encode)

theorem SplitsInto.unique {text : List Char} {records others : List (List (List Char))}
    (splits : SplitsInto text records) (again : SplitsInto text others) : records = others := by
  have same : records.map (List.map encode) = others.map (List.map encode) := splits.symm.trans again
  exact (Text.Utf8.encode_injective.list_map.list_map) same

/-- The record that a row is read as: one empty field stands for no fields. -/
def recordOf (row : List (List Char)) : List (List Char) :=
  if row = [] then [[]] else row

section Rows

variable {row : List (List Char)} (cells : ∀ cell ∈ row, IsCell cell)
include cells

theorem writeRow_of_cells (filled : row ≠ []) : writeRow row = [','].intercalate row ++ ['\n'] := by
  obtain ⟨cell, others, rfl⟩ := List.exists_cons_of_ne_nil filled
  have starts := Recording.prefix_intercalate [','] cell others
  have some : [','].intercalate (cell :: others) ≠ [] := by
    intro blank
    rw [blank, List.prefix_nil] at starts
    exact (cells cell List.mem_cons_self).filled starts
  simp [writeRow, some]

theorem run_writeRow {s : Scanner} (fresh : s.Alike {}) :
    (s.run (encode (writeRow row))).1.map Record.fields = [(recordOf row).map encode] ∧
      (s.run (encode (writeRow row))).2.Alike {} := by
  cases row with
  | nil =>
    -- Two quotes and a line feed are read by the scanner itself.
    obtain ⟨last, records⟩ := fresh.run (encode (writeRow []))
    exact ⟨records, last.spot, last.field, last.fields⟩
  | cons cell others =>
    have content : ∀ field ∈ (cell :: others).map encode, field ≠ [] ∧ Clean field := by
      rw [List.forall_mem_map]
      intro text member
      have plain := (cells text member).plain
      exact ⟨Text.Utf8.encode_ne_nil plain.filled, plain.clean⟩
    obtain ⟨t, done, spot, handed⟩ := run_row fresh (by simp) content
    have breaks : ∀ b ∈ [lineFeed], isBreak b = true := List.forall_mem_singleton.mpr rfl
    obtain ⟨ended, again⟩ := run_ending spot (List.cons_ne_nil _ _) breaks
    have line : encode (writeRow (cell :: others)) =
        [comma].intercalate ((cell :: others).map encode) ++ [lineFeed] := by
      rw [writeRow_of_cells cells (List.cons_ne_nil _ _), Text.Utf8.encode_append,
        Recording.encode_intercalate]
      rfl
    rw [line, run_append, done, List.nil_append, ended]
    exact ⟨handed, again⟩

end Rows

section Written

variable {rows : List (List (List Char))} (cells : ∀ row ∈ rows, ∀ cell ∈ row, IsCell cell)
include cells

theorem run_write {s : Scanner} (fresh : s.Alike {}) :
    (s.run (encode (write rows))).1.map Record.fields =
        (rows.map recordOf).map (List.map encode) ∧
      (s.run (encode (write rows))).2.Alike {} := by
  -- Induction on the rows; the scanner is fresh again behind each of them.
  induction rows generalizing s with
  | nil => exact ⟨rfl, fresh⟩
  | cons row rows ih =>
    obtain ⟨first, others⟩ := List.forall_mem_cons.mp cells
    obtain ⟨handed, again⟩ := run_writeRow first fresh
    obtain ⟨further, last⟩ := ih others again
    have text : encode (write (row :: rows)) = encode (writeRow row) ++ encode (write rows) := by
      simp [write, Text.Utf8.encode_append]
    rw [text, run_append]
    refine ⟨?_, last⟩
    rw [List.map_append, handed, further]
    rfl

theorem not_mark_isPrefix_write : ¬ Text.Utf8.mark <+: encode (write rows) := by
  cases rows with
  | nil => decide
  | cons row rows =>
    have line : writeRow row <+: write (row :: rows) := List.prefix_append _ _
    have here := cells row List.mem_cons_self
    cases row with
    | nil => exact Text.Utf8.not_mark_isPrefix_of_start line (by decide) (by decide)
    | cons cell others =>
      have first := here cell List.mem_cons_self
      have starts : cell <+: writeRow (cell :: others) := by
        rw [writeRow_of_cells here (List.cons_ne_nil _ _)]
        exact (Recording.prefix_intercalate _ _ _).trans (List.prefix_append _ _)
      exact Text.Utf8.not_mark_isPrefix_of_start (starts.trans line) first.filled first.unmarked

theorem splitsInto_write : SplitsInto (write rows) (rows.map recordOf) := by
  have fresh : ({} : Scanner).Alike {} := ⟨rfl, rfl, rfl⟩
  obtain ⟨handed, last⟩ := run_write cells fresh
  have idle : (({} : Scanner).run (encode (write rows))).2.finish = [] := if_pos last.spot
  unfold SplitsInto
  rw [scan_eq_reach, reach, if_neg (mt List.isPrefixOf_iff_prefix.mp (not_mark_isPrefix_write cells)),
    idle, List.append_nil, handed]

end Written

example : (scan (encode (write [[], [], ["0".toList]]))).map Record.fields = [[[]], [[]], [[48]]] := by
  decide

theorem eq_of_recordOf {row other : List (List Char)} (cells : ∀ cell ∈ row, IsCell cell)
    (others : ∀ cell ∈ other, IsCell cell) (same : recordOf row = recordOf other) : row = other := by
  have blank : ¬ IsCell [] := fun cell => cell.filled rfl
  unfold recordOf at same
  split at same
  · split at same
    · simp only [*]
    · subst same
      exact absurd (others [] List.mem_cons_self) blank
  · split at same
    · subst same
      exact absurd (cells [] List.mem_cons_self) blank
    · exact same

theorem eq_of_write {rows others : List (List (List Char))}
    (cells : ∀ row ∈ rows, ∀ cell ∈ row, IsCell cell)
    (otherCells : ∀ row ∈ others, ∀ cell ∈ row, IsCell cell)
    (same : write rows = write others) : rows = others := by
  have records : rows.map recordOf = others.map recordOf :=
    (splitsInto_write cells).unique (same ▸ splitsInto_write otherCells)
  clear same
  induction rows generalizing others with
  | nil => exact (List.map_eq_nil_iff.mp records.symm).symm
  | cons row rows ih =>
    obtain ⟨other, others, rfl, first, rest⟩ := List.map_eq_cons_iff.mp records.symm
    obtain ⟨here, further⟩ := List.forall_mem_cons.mp cells
    obtain ⟨there, beyond⟩ := List.forall_mem_cons.mp otherCells
    rw [eq_of_recordOf here there first.symm, ih further beyond rest.symm]

end Table

namespace Content

inductive Kind where
  | line
  | grid
  | grey
  | coloured
deriving DecidableEq

def kind : Content → Kind
  | line _ => .line
  | grid _ => .grid
  | image (.grey _) => .grey
  | image (.coloured _) => .coloured

/-- The texts of the cells, row by row; each point of a line is a row. -/
def printed : Content → List (List (List Char))
  | line values => values.map fun v => [Decimal.write v]
  | grid cells => cells.rows.map (List.map Decimal.write)
  | image (.grey pixels) => pixels.rows.map (List.map Decimal.write)
  | image (.coloured pixels) => pixels.rows.map (List.map Colour.write)

end Content

/-- One record for each row of the grid, in it one field for each column. Where there are no columns,
    each record is one empty field. -/
structure Grid.RecordedBy {α : Type} (spelled : α → List Char → Prop) (g : Grid α)
    (records : List (List (List Char))) : Prop where
  count : records.length = g.height
  blank : g.columns = 0 → ∀ record ∈ records, record = [[]]
  width : g.columns ≠ 0 → ∀ record ∈ records, record.length = g.columns
  cells : ∀ r c v, g.cell? r c = some v →
    ∃ record field, records[r]? = some record ∧ record[c]? = some field ∧ spelled v field

theorem Grid.recordedBy_map {α : Type} {spelled : α → List Char → Prop} {text : α → List Char}
    (spells : ∀ v, spelled v (text v)) (g : Grid α) :
    g.RecordedBy spelled ((g.rows.map (List.map text)).map Table.recordOf) where
  count := by simp [height]
  blank := by
    intro none
    rw [List.forall_mem_map, List.forall_mem_map]
    intro row member
    have empty : row = [] := List.eq_nil_of_length_eq_zero ((g.aligned row member).trans none)
    rw [empty]
    rfl
  width := by
    intro some
    rw [List.forall_mem_map, List.forall_mem_map]
    intro row member
    have length := g.aligned row member
    have filled : row.map text ≠ [] := by
      intro empty
      rw [List.map_eq_nil_iff.mp empty] at length
      exact some length.symm
    rw [Table.recordOf, if_neg filled, List.length_map, length]
  cells := by
    intro r c v found
    obtain ⟨row, here, there⟩ := Option.bind_eq_some_iff.mp found
    have filled : row.map text ≠ [] := by
      intro empty
      rw [List.map_eq_nil_iff.mp empty] at there
      contradiction
    refine ⟨row.map text, text v, ?_, ?_, spells v⟩
    · simp [here, Table.recordOf, List.map_eq_nil_iff.not.mp filled]
    · simp [there]

def Content.RecordedBy : Content → List (List (List Char)) → Prop
  | line values, records => records.length = values.length ∧
      ∀ i v, values[i]? = some v → records[i]? = some [Text.Numeral.write i, Decimal.write v]
  | grid cells, records => cells.RecordedBy (fun v field => field = Decimal.write v) records
  | image (.grey pixels), records => pixels.RecordedBy (fun v field => field = Decimal.write v) records
  | image (.coloured pixels), records => pixels.RecordedBy Colour.SpelledBy records

namespace Figure

theorem isCell_of_rows (f : Figure) : ∀ row ∈ f.rows, ∀ cell ∈ row, IsCell cell := by
  have grids : ∀ {α : Type} (text : α → List Char), (∀ v, IsCell (text v)) →
      ∀ rows : List (List α), ∀ row ∈ rows.map (List.map text), ∀ cell ∈ row, IsCell cell := by
    intro α text cell rows
    rw [List.forall_mem_map]
    intro row member
    rw [List.forall_mem_map]
    exact fun v _ => cell v
  unfold rows
  split
  · rw [List.forall_mem_map]
    intro (v, i) member
    exact List.forall_mem_cons.mpr ⟨isCell_numeral i, List.forall_mem_singleton.mpr (Decimal.isCell_write v)⟩
  · exact grids _ Decimal.isCell_write _
  · exact grids _ Decimal.isCell_write _
  · exact grids _ Colour.isCell_write _

theorem recordedBy_rows (f : Figure) : f.content.RecordedBy (f.rows.map Table.recordOf) := by
  have numbers : ∀ g : Grid Float, g.RecordedBy (fun v field => field = Decimal.write v)
      ((g.rows.map (List.map Decimal.write)).map Table.recordOf) := by
    intro g
    apply g.recordedBy_map
    intro v
    rfl
  unfold rows Content.RecordedBy
  cases f.content with
  | line values =>
    refine ⟨by simp, ?_⟩
    intro i v found
    simp [found, Table.recordOf]
  | grid cells => exact numbers cells
  | image picture =>
    cases picture with
    | grey pixels => exact numbers pixels
    | coloured pixels => exact pixels.recordedBy_map Colour.spelledBy_write

def numbered (rows : List (List (List Char))) : List (List (List Char)) :=
  rows.zipIdx.map fun (row, i) => Text.Numeral.write i :: row

theorem numbered_injective : Function.Injective numbered := by
  have undone : ∀ rows, (numbered rows).map List.tail = rows := by
    intro rows
    unfold numbered
    rw [List.map_map]
    exact List.zipIdx_map_fst 0 rows
  exact Function.LeftInverse.injective undone

theorem rows_of_line {f : Figure} (line : f.content.kind = .line) :
    f.rows = numbered f.content.printed := by
  unfold rows
  cases content : f.content with
  | line values => simp [Content.printed, numbered, List.zipIdx_map]
  | grid cells => simp [content, Content.kind] at line
  | image picture => cases picture <;> simp [content, Content.kind] at line

theorem rows_of_plane {f : Figure} (plane : f.content.kind ≠ .line) : f.rows = f.content.printed := by
  unfold rows
  cases content : f.content with
  | line values => simp [content, Content.kind] at plane
  | grid cells => rfl
  | image picture => cases picture <;> rfl

theorem rows_eq_iff {f g : Figure} (kind : f.content.kind = g.content.kind) :
    f.rows = g.rows ↔ f.content.printed = g.content.printed := by
  by_cases line : f.content.kind = .line
  · rw [rows_of_line line, rows_of_line (kind ▸ line)]
    exact numbered_injective.eq_iff
  · rw [rows_of_plane line, rows_of_plane (kind ▸ line)]

/-- The table of a figure is split into records that hold what the figure shows. So figures of one
    kind have the same table just where all of their cells are printed alike. -/
theorem tables_hold_the_content (f : Figure) :
    (∃ records, Table.SplitsInto f.table records ∧ f.content.RecordedBy records) ∧
    ∀ g : Figure, f.content.kind = g.content.kind →
      (f.table = g.table ↔ f.content.printed = g.content.printed) := by
  constructor
  · exact ⟨_, Table.splitsInto_write f.isCell_of_rows, f.recordedBy_rows⟩
  · intro g kind
    rw [← rows_eq_iff kind]
    constructor
    · exact Table.eq_of_write f.isCell_of_rows g.isCell_of_rows
    · exact congrArg Table.write

def zeros (last : Float) : Figure :=
  ({} : Request).figure .snapshot none ⟨.line [0, last], none, none⟩

theorem tables_of_zeros_differ : (zeros (-0)).table ≠ (zeros 0).table := by
  intro same
  obtain ⟨_, determined⟩ := (zeros (-0)).tables_hold_the_content
  have printed := (determined (zeros 0) rfl).mp same
  exact absurd printed (by decide +kernel)

end Figure
end FieldPlot
