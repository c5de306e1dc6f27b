import FieldPlot.Table.Record
import Mathlib.Data.List.Basic

/-!
Tables read in parts. Where a record ends, the records up to there stay what they are, whatever
follows (`scan_append_of_ends`); and what follows a line is read as if it stood alone, but for the
places of its records (`scan_append_of_endsLine`).
-/
namespace FieldPlot.Table

namespace Scanner

structure Alike (s t : Scanner) : Prop where
  spot : s.spot = t.spot
  field : s.field = t.field
  fields : s.fields = t.fields

def AlikeTurns (x y : Scanner × Option Record) : Prop :=
  x.1.Alike y.1 ∧ x.2.map Record.fields = y.2.map Record.fields

variable {s t : Scanner}

theorem Alike.count (alike : s.Alike t) (b : UInt8) : (s.count b).Alike (t.count b) :=
  ⟨alike.spot, alike.field, alike.fields⟩

theorem Alike.push (alike : s.Alike t) (b : UInt8) : (s.push b).Alike (t.push b) :=
  ⟨alike.spot, congrArg (b :: ·) alike.field, alike.fields⟩

theorem Alike.record_fields (alike : s.Alike t) : s.record.fields = t.record.fields := by
  rw [record, record, alike.field, alike.fields]

theorem Alike.unquoted (alike : s.Alike t) (b : UInt8) :
    AlikeTurns (s.unquoted b) (t.unquoted b) := by
  unfold Scanner.unquoted
  split
  · refine ⟨⟨rfl, rfl, ?_⟩, rfl⟩
    rw [endField, endField, alike.field, alike.fields]
  · split
    · exact ⟨⟨rfl, rfl, rfl⟩, congrArg some alike.record_fields⟩
    · exact ⟨⟨rfl, (alike.push b).field, alike.fields⟩, rfl⟩

theorem Alike.opening (alike : s.Alike t) (b : UInt8) :
    AlikeTurns (s.opening b) (t.opening b) := by
  unfold Scanner.opening
  split
  · exact ⟨⟨rfl, alike.field, alike.fields⟩, rfl⟩
  · exact alike.unquoted b

theorem Alike.step (alike : s.Alike t) (b : UInt8) : AlikeTurns (s.step b) (t.step b) := by
  have counted := alike.count b
  have pushed := counted.push b
  unfold Scanner.step
  rw [← alike.spot]
  cases s.spot with
  | between =>
    simp only
    split
    · exact ⟨counted, rfl⟩
    · exact counted.opening b
  | fieldStart => exact counted.opening b
  | plain => exact counted.unquoted b
  | quoted =>
    simp only
    split
    · exact ⟨⟨rfl, counted.field, counted.fields⟩, rfl⟩
    · exact ⟨pushed, rfl⟩
  | closed =>
    simp only
    split
    · exact ⟨⟨rfl, pushed.field, pushed.fields⟩, rfl⟩
    · exact counted.unquoted b

theorem run_cons (s : Scanner) (b : UInt8) (rest : List UInt8) :
    s.run (b :: rest) =
      ((s.step b).2.toList ++ ((s.step b).1.run rest).1, ((s.step b).1.run rest).2) := by
  rw [run]
  rcases s.step b with ⟨t, _ | r⟩
  · rfl
  · rfl

theorem Alike.run (alike : s.Alike t) (bytes : List UInt8) :
    (s.run bytes).2.Alike (t.run bytes).2 ∧
      (s.run bytes).1.map Record.fields = (t.run bytes).1.map Record.fields := by
  induction bytes generalizing s t with
  | nil => exact ⟨alike, rfl⟩
  | cons b rest ih =>
    obtain ⟨turned, handed⟩ := alike.step b
    obtain ⟨last, further⟩ := ih turned
    rw [run_cons, run_cons]
    refine ⟨last, ?_⟩
    rw [List.map_append, List.map_append, further, ← Option.toList_map, ← Option.toList_map,
      handed]

theorem Alike.finish (alike : s.Alike t) :
    s.finish.map Record.fields = t.finish.map Record.fields := by
  unfold Scanner.finish
  rw [alike.spot]
  split
  · rfl
  · simp [alike.record_fields]

def Idle (s : Scanner) : Prop :=
  s.spot = .between → s.field = [] ∧ s.fields = []

theorem idle_unquoted (s : Scanner) (b : UInt8) : (s.unquoted b).1.Idle := by
  unfold unquoted
  split
  · intro between
    contradiction
  · split
    · exact fun _ => ⟨rfl, rfl⟩
    · intro between
      contradiction

theorem idle_opening (s : Scanner) (b : UInt8) : (s.opening b).1.Idle := by
  unfold opening
  split
  · intro between
    contradiction
  · exact idle_unquoted s b

theorem idle_step (idle : s.Idle) (b : UInt8) : (s.step b).1.Idle := by
  unfold step
  cases spot : s.spot with
  | between =>
    simp only
    split
    · exact fun _ => idle spot
    · exact idle_opening _ b
  | fieldStart => exact idle_opening _ b
  | plain => exact idle_unquoted _ b
  | quoted =>
    simp only
    split
    · intro between
      contradiction
    · intro between
      rw [push, count, spot] at between
      contradiction
  | closed =>
    simp only
    split
    · intro between
      contradiction
    · exact idle_unquoted _ b

theorem idle_run (idle : s.Idle) (bytes : List UInt8) : (s.run bytes).2.Idle := by
  induction bytes generalizing s with
  | nil => exact idle
  | cons b rest ih =>
    rw [run_cons]
    exact ih (idle_step idle b)

/-- A line break that no quotes enclose ends the record under way, if there is one. -/
theorem step_of_break {b : UInt8} (ends : isBreak b = true) (outside : s.spot ≠ .quoted) :
    (s.step b).1.spot = .between ∧ (s.step b).2.toList = s.finish := by
  have noComma : b ≠ comma := by
    rintro rfl
    contradiction
  have noQuote : b ≠ quote := by
    rintro rfl
    contradiction
  have ended : ∀ u : Scanner, u.unquoted b = (u.endRecord, some u.record) := by
    intro u
    rw [unquoted, if_neg noComma, if_pos ends]
  have opened : ∀ u : Scanner, u.opening b = (u.endRecord, some u.record) := by
    intro u
    rw [opening, if_neg noQuote, ended]
  unfold step finish
  cases spot : s.spot with
  | between => simp [ends, count, spot]
  | fieldStart => simp only [opened]; exact ⟨rfl, rfl⟩
  | plain => simp only [ended]; exact ⟨rfl, rfl⟩
  | quoted => contradiction
  | closed => simp only [noQuote, if_false, ended]; exact ⟨rfl, rfl⟩

end Scanner

/-- The records that the bytes of a table complete, and the scanner behind them. -/
def reach (bytes : List UInt8) : List Record × Scanner :=
  if Text.Utf8.mark.isPrefixOf bytes then
    ({ bytes := Text.Utf8.mark.length } : Scanner).run (bytes.drop Text.Utf8.mark.length)
  else ({} : Scanner).run bytes

theorem scan_eq_reach (bytes : List UInt8) :
    scan bytes = (reach bytes).1 ++ (reach bytes).2.finish := rfl

def further (bytes : List UInt8) : List Record :=
  (({} : Scanner).run bytes).1 ++ (({} : Scanner).run bytes).2.finish

def EndsLine (bytes : List UInt8) : Prop :=
  ∃ front b, bytes = front ++ [b] ∧ isBreak b = true ∧ (reach front).2.spot ≠ .quoted

/-- The last record of the bytes ends with them when these bytes follow. -/
def Ends (bytes tail : List UInt8) : Prop :=
  tail = [] ∨ EndsLine bytes ∨
    ∃ b rest, tail = b :: rest ∧ isBreak b = true ∧ (reach bytes).2.spot ≠ .quoted

theorem not_mem_mark {p : UInt8 → Bool} (none : Text.Utf8.mark.any p = false) {b : UInt8}
    (holds : p b = true) : b ∉ Text.Utf8.mark := by
  rw [List.any_eq_false] at none
  exact fun member => none b member holds

theorem mark_isPrefix_of_append {front tail : List UInt8}
    (new : ∀ b ∈ tail.head?, b ∉ Text.Utf8.mark) (marked : Text.Utf8.mark <+: front ++ tail) :
    Text.Utf8.mark <+: front := by
  cases tail with
  | nil => rwa [List.append_nil] at marked
  | cons b rest =>
    have outside := new b rfl
    have here : front ++ [b] <+: front ++ b :: rest := ⟨rest, by simp⟩
    rcases List.prefix_or_prefix_of_prefix marked here with inside | across
    · rcases List.prefix_concat_iff.mp inside with whole | within
      · exact absurd (whole ▸ List.mem_append_right front (List.mem_singleton_self b)) outside
      · exact within
    · exact absurd (across.subset (List.mem_append_right front (List.mem_singleton_self b))) outside

theorem mark_isPrefix_of_break {front rest : List UInt8} {b : UInt8} (ends : isBreak b = true)
    (marked : Text.Utf8.mark <+: front ++ b :: rest) : Text.Utf8.mark <+: front := by
  refine mark_isPrefix_of_append (fun c first => ?_) marked
  obtain rfl : b = c := Option.some.inj first
  exact not_mem_mark (by decide) ends

theorem reach_append {bytes tail : List UInt8}
    (settled : Text.Utf8.mark <+: bytes ++ tail → Text.Utf8.mark <+: bytes) :
    reach (bytes ++ tail) =
      ((reach bytes).1 ++ ((reach bytes).2.run tail).1, ((reach bytes).2.run tail).2) := by
  unfold reach
  by_cases marked : Text.Utf8.mark <+: bytes
  · have longer : Text.Utf8.mark <+: bytes ++ tail := marked.trans (List.prefix_append _ _)
    rw [if_pos (List.isPrefixOf_iff_prefix.mpr longer),
      if_pos (List.isPrefixOf_iff_prefix.mpr marked), List.drop_append_of_le_length marked.length_le,
      Scanner.run_append]
  · rw [if_neg (mt List.isPrefixOf_iff_prefix.mp (mt settled marked)),
      if_neg (mt List.isPrefixOf_iff_prefix.mp marked), Scanner.run_append]

theorem EndsLine.settled {bytes : List UInt8} (ends : EndsLine bytes) (tail : List UInt8)
    (marked : Text.Utf8.mark <+: bytes ++ tail) : Text.Utf8.mark <+: bytes := by
  obtain ⟨front, b, rfl, line, _⟩ := ends
  rw [List.append_assoc, List.singleton_append] at marked
  exact (mark_isPrefix_of_break line marked).trans (List.prefix_append _ _)

theorem reach_idle (bytes : List UInt8) : (reach bytes).2.Idle := by
  unfold reach
  split
  · exact Scanner.idle_run (fun _ => ⟨rfl, rfl⟩) _
  · exact Scanner.idle_run (fun _ => ⟨rfl, rfl⟩) _

/-- Behind a line the scanner is as at the start of a table. -/
theorem EndsLine.alike {bytes : List UInt8} (ends : EndsLine bytes) :
    (reach bytes).2.Alike {} := by
  have between : (reach bytes).2.spot = .between := by
    obtain ⟨front, b, rfl, line, outside⟩ := ends
    rw [reach_append fun marked => mark_isPrefix_of_break line marked, Scanner.run_cons]
    exact (Scanner.step_of_break line outside).1
  obtain ⟨field, fields⟩ := reach_idle bytes between
  exact ⟨between, field, fields⟩

theorem scan_append_of_endsLine {bytes : List UInt8} (ends : EndsLine bytes)
    (tail : List UInt8) : ∃ more, scan (bytes ++ tail) = scan bytes ++ more ∧
      more.map Record.fields = (further tail).map Record.fields := by
  have alike := ends.alike
  have idle : (reach bytes).2.finish = [] := if_pos alike.spot
  obtain ⟨last, records⟩ := alike.run tail
  refine ⟨((reach bytes).2.run tail).1 ++ ((reach bytes).2.run tail).2.finish, ?_, ?_⟩
  · rw [scan_eq_reach, scan_eq_reach, reach_append (ends.settled tail), idle, List.append_nil,
      List.append_assoc]
  · rw [further, List.map_append, List.map_append, records, last.finish]

theorem scan_append_of_ends {bytes tail : List UInt8} (ends : Ends bytes tail) :
    ∃ more, scan (bytes ++ tail) = scan bytes ++ more := by
  rcases ends with rfl | line | ⟨b, rest, rfl, line, outside⟩
  · exact ⟨[], by rw [List.append_nil, List.append_nil]⟩
  · obtain ⟨more, scanned, _⟩ := scan_append_of_endsLine line tail
    exact ⟨more, scanned⟩
  · have handed := (Scanner.step_of_break line outside).2
    refine ⟨(((reach bytes).2.step b).1.run rest).1 ++
      (((reach bytes).2.step b).1.run rest).2.finish, ?_⟩
    rw [scan_eq_reach, scan_eq_reach,
      reach_append fun marked => mark_isPrefix_of_break line marked, Scanner.run_cons, handed]
    simp only [List.append_assoc]

/-- What is in front of the lines of a table: the byte order mark or nothing, and nothing only where
    the lines do not start with the mark themselves. -/
def Fronts (front rest : List UInt8) : Prop :=
  front = Text.Utf8.mark ∨ front = [] ∧ ¬ Text.Utf8.mark <+: rest

theorem exists_fronts (bytes : List UInt8) :
    ∃ front rest, bytes = front ++ rest ∧ Fronts front rest := by
  by_cases marked : Text.Utf8.mark <+: bytes
  · obtain ⟨rest, rfl⟩ := marked
    exact ⟨_, rest, rfl, .inl rfl⟩
  · exact ⟨[], bytes, rfl, .inr ⟨rfl, marked⟩⟩

theorem Fronts.of_prefix {front rest piece : List UInt8} (fronts : Fronts front rest)
    (part : piece <+: rest) : Fronts front piece :=
  fronts.imp_right fun unmarked => ⟨unmarked.1, fun marked => unmarked.2 (marked.trans part)⟩

theorem reach_of_fronts {front rest : List UInt8} (fronts : Fronts front rest) :
    reach (front ++ rest) = ({ bytes := front.length } : Scanner).run rest := by
  unfold reach
  rcases fronts with rfl | ⟨rfl, unmarked⟩
  · rw [if_pos (List.isPrefixOf_iff_prefix.mpr (List.prefix_append _ _)), List.drop_left]
  · rw [List.nil_append, if_neg (mt List.isPrefixOf_iff_prefix.mp unmarked)]
    rfl

end FieldPlot.Table
