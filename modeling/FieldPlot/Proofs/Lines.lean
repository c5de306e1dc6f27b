import FieldPlot.Proofs.Beginnings

/-!
Tables line by line. Without quotes a line is cut at its separators into the fields of a record, and a
line without a byte is no record, whatever breaks the lines and whether or not the last line is ended
(`records_of_lines`). So rows of fields without separators, quotes and line breaks are scanned as they
are.
-/
namespace FieldPlot.Table

/-- The fields of lines without quotes, a record for each line that is not empty. -/
def rowsOf (lines : List (List UInt8)) : List (List (List UInt8)) :=
  (lines.filter (· ≠ [])).map fun line => line.splitOn comma

theorem rowsOf_cons (line : List UInt8) (lines : List (List UInt8)) :
    rowsOf (line :: lines) = rowsOf [line] ++ rowsOf lines := by
  rw [rowsOf, rowsOf, rowsOf, ← List.map_append, ← List.filter_append, List.singleton_append]

theorem rowsOf_cons_of_ne_nil {line : List UInt8} (filled : line ≠ []) (lines : List (List UInt8)) :
    rowsOf (line :: lines) = line.splitOn comma :: rowsOf lines := by
  rw [rowsOf, List.filter_cons_of_pos (by simpa using filled)]
  rfl

namespace Scanner

variable {s : Scanner}

def Open (s : Scanner) : Prop :=
  s.spot ≠ .quoted ∧ s.spot ≠ .closed

theorem step_of_content {b : UInt8} (opened : s.Open) (noComma : b ≠ comma) (noQuote : b ≠ quote)
    (noBreak : isBreak b = false) :
    s.step b = ({ (s.count b).push b with spot := .plain }, none) := by
  obtain ⟨notQuoted, notClosed⟩ := opened
  have taken : ∀ t : Scanner, t.unquoted b = ({ t.push b with spot := .plain }, none) := by
    intro t
    rw [unquoted, if_neg noComma, noBreak]
    rfl
  have started : ∀ t : Scanner, t.opening b = ({ t.push b with spot := .plain }, none) := by
    intro t
    rw [opening, if_neg noQuote, taken]
  unfold step
  cases spot : s.spot with
  | between => simp only [noBreak, started, Bool.false_eq_true, if_false]
  | fieldStart => exact started _
  | plain => exact taken _
  | quoted => contradiction
  | closed => contradiction

theorem step_of_comma (opened : s.Open) : s.step comma = ((s.count comma).endField, none) := by
  obtain ⟨notQuoted, notClosed⟩ := opened
  have ended : ∀ t : Scanner, t.unquoted comma = (t.endField, none) := fun t => if_pos rfl
  have started : ∀ t : Scanner, t.opening comma = (t.endField, none) := by
    intro t
    rw [opening, if_neg (by decide), ended]
  unfold step
  cases spot : s.spot with
  | between => exact started _
  | fieldStart => exact started _
  | plain => exact ended _
  | quoted => contradiction
  | closed => contradiction

structure Unbroken (line : List UInt8) : Prop where
  noQuote : quote ∉ line
  noBreak : ∀ b ∈ line, isBreak b = false

theorem Unbroken.append {line rest : List UInt8} (first : Unbroken line) (second : Unbroken rest) :
    Unbroken (line ++ rest) where
  noQuote := fun member => (List.mem_append.mp member).elim first.noQuote second.noQuote
  noBreak := List.forall_mem_append.mpr ⟨first.noBreak, second.noBreak⟩

theorem Unbroken.tail {b : UInt8} {line : List UInt8} (unbroken : Unbroken (b :: line)) :
    Unbroken line where
  noQuote := List.not_mem_of_not_mem_cons unbroken.noQuote
  noBreak := fun c member => unbroken.noBreak c (List.mem_cons_of_mem b member)

structure Clean (field : List UInt8) : Prop where
  noComma : comma ∉ field
  noQuote : quote ∉ field
  noBreak : ∀ b ∈ field, isBreak b = false

theorem unbroken_intercalate {row : List (List UInt8)} (clean : ∀ field ∈ row, Clean field) :
    Unbroken ([comma].intercalate row) := by
  induction row with
  | nil => exact ⟨List.not_mem_nil, by simp⟩
  | cons field row ih =>
    obtain ⟨first, others⟩ := List.forall_mem_cons.mp clean
    have here : Unbroken field := ⟨first.noQuote, first.noBreak⟩
    cases row with
    | nil => rwa [List.intercalate_singleton]
    | cons next row =>
      have separator : Unbroken [comma] := ⟨by decide, List.forall_mem_singleton.mpr rfl⟩
      rw [List.intercalate_cons_cons]
      exact (here.append separator).append (ih others)

theorem modifyHead_nil_append (parts : List (List UInt8)) : parts.modifyHead ([] ++ ·) = parts := by
  cases parts <;> rfl

/-- The rest of a line is taken for the field under way and the fields behind it, as the separators
    cut it. -/
theorem run_line {line : List UInt8} (opened : s.Open) (unbroken : Unbroken line) :
    ∃ t, s.run line = ([], t) ∧ t.Open ∧ (t.spot = .between → line = [] ∧ s.spot = .between) ∧
      t.record.fields =
        s.fields.reverse ++ (line.splitOn comma).modifyHead (s.field.reverse ++ ·) := by
  induction line generalizing s with
  | nil =>
    refine ⟨s, rfl, opened, fun between => ⟨rfl, between⟩, ?_⟩
    rw [record, List.reverse_cons, List.splitOn_nil, List.modifyHead_cons, List.append_nil]
  | cons b line ih =>
    rw [List.splitOn_cons_eq_if_modifyHead]
    by_cases separator : b = comma
    · subst separator
      have reopened : (s.count comma).endField.Open := by
        constructor <;> simp [endField]
      obtain ⟨t, done, last, idle, fields⟩ := ih reopened unbroken.tail
      refine ⟨t, ?_, last, fun between => ?_, ?_⟩
      · rw [run_cons, step_of_comma opened, done]
        rfl
      · exact absurd (idle between).2 (by simp [endField])
      · have ended : (s.count comma).endField.fields.reverse = s.fields.reverse ++ [s.field.reverse] :=
          List.reverse_cons
        have fresh : (s.count comma).endField.field.reverse = [] := rfl
        rw [fields, ended, fresh, modifyHead_nil_append, if_pos (beq_self_eq_true comma), List.modifyHead_cons,
          List.append_nil, List.append_assoc, List.singleton_append]
    · have turned : s.step b = ({ (s.count b).push b with spot := .plain }, none) :=
        step_of_content opened separator (List.ne_of_not_mem_cons unbroken.noQuote).symm
          (unbroken.noBreak b List.mem_cons_self)
      have reopened : ({ (s.count b).push b with spot := .plain } : Scanner).Open := by
        constructor <;> simp
      obtain ⟨t, done, last, idle, fields⟩ := ih reopened unbroken.tail
      refine ⟨t, ?_, last, fun between => ?_, ?_⟩
      · rw [run_cons, turned, done]
        rfl
      · exact absurd (idle between).2 (by simp)
      · rw [fields, if_neg (by simpa using separator), List.modifyHead_modifyHead]
        simp [push, count, Function.comp_def]

def Ready (s : Scanner) : Prop :=
  s.spot ≠ .quoted ∧ s.Idle

theorem run_line_of_fresh {line : List UInt8} (fresh : s.Alike {}) (unbroken : Unbroken line) :
    ∃ t, s.run line = ([], t) ∧ t.Ready ∧ t.finish.map Record.fields = rowsOf [line] := by
  have opened : s.Open := by
    rw [Open, fresh.spot]
    decide
  have idle : s.Idle := fun _ => ⟨fresh.field, fresh.fields⟩
  obtain ⟨t, done, last, between, fields⟩ := run_line opened unbroken
  have idle' : t.Idle := by
    have kept := idle_run idle line
    rwa [done] at kept
  refine ⟨t, done, ⟨last.1, idle'⟩, ?_⟩
  unfold finish
  by_cases empty : line = []
  · subst empty
    obtain rfl : s = t := congrArg Prod.snd done
    rw [if_pos fresh.spot]
    rfl
  · have busy : t.spot ≠ .between := fun rest => empty (between rest).1
    rw [if_neg busy, rowsOf_cons_of_ne_nil empty, List.map_singleton, fields, fresh.fields, fresh.field]
    exact congrArg (fun row => [row]) (modifyHead_nil_append _)

theorem run_breaks {breaks : List UInt8} (outside : s.spot ≠ .quoted)
    (all : ∀ b ∈ breaks, isBreak b = true) :
    (s.run breaks).1 ++ (s.run breaks).2.finish = s.finish ∧
      (breaks ≠ [] → (s.run breaks).2.spot = .between) := by
  induction breaks generalizing s with
  | nil => simp [run]
  | cons b breaks ih =>
    obtain ⟨first, others⟩ := List.forall_mem_cons.mp all
    obtain ⟨between, handed⟩ := step_of_break first outside
    have idle : (s.step b).1.finish = [] := if_pos between
    have outside' : (s.step b).1.spot ≠ .quoted := by
      rw [between]
      decide
    obtain ⟨sum, later⟩ := ih outside' others
    rw [idle] at sum
    rw [run_cons, handed]
    refine ⟨?_, fun _ => ?_⟩
    · rw [List.append_assoc, sum, List.append_nil]
    · cases breaks with
      | nil => exact between
      | cons c breaks => exact later (by simp)

/-- Behind the end of a line the scanner is as at the start of a table. -/
theorem run_ending {ending : List UInt8} (ready : s.Ready) (ended : ending ≠ [])
    (breaks : ∀ b ∈ ending, isBreak b = true) :
    (s.run ending).1 = s.finish ∧ (s.run ending).2.Alike {} := by
  obtain ⟨outside, idle⟩ := ready
  obtain ⟨sum, later⟩ := run_breaks outside breaks
  have between := later ended
  obtain ⟨field, fields⟩ := idle_run idle ending between
  have nothing : (s.run ending).2.finish = [] := if_pos between
  rw [nothing, List.append_nil] at sum
  exact ⟨sum, between, field, fields⟩

end Scanner

open Scanner

/-- From the start of a line on, the records are the lines that are not empty. -/
theorem records_of_lines {s : Scanner} (fresh : s.Alike {}) {lines : List (List UInt8)}
    {ending final : List UInt8} (unbroken : ∀ line ∈ lines, Unbroken line)
    (ended : ending ≠ []) (breaks : ∀ b ∈ ending, isBreak b = true)
    (closing : ∀ b ∈ final, isBreak b = true) :
    ((s.run (ending.intercalate lines ++ final)).1 ++
      (s.run (ending.intercalate lines ++ final)).2.finish).map Record.fields = rowsOf lines := by
  -- Induction on the lines; `fresh` holds again behind the end of each line.
  induction lines generalizing s with
  | nil =>
    have outside : s.spot ≠ .quoted := by
      rw [fresh.spot]
      decide
    have idle : s.finish = [] := if_pos fresh.spot
    rw [List.intercalate_nil, List.nil_append, (run_breaks outside closing).1, idle]
    rfl
  | cons line lines ih =>
    obtain ⟨first, others⟩ := List.forall_mem_cons.mp unbroken
    obtain ⟨t, done, ready, handed⟩ := run_line_of_fresh fresh first
    cases lines with
    | nil =>
      rw [List.intercalate_singleton, run_append, done, List.nil_append, (run_breaks ready.1 closing).1]
      exact handed
    | cons next lines =>
      obtain ⟨sum, again⟩ := run_ending ready ended breaks
      rw [List.intercalate_cons_cons, List.append_assoc, List.append_assoc, run_append, done, run_append,
        sum, List.nil_append, List.append_assoc, List.map_append, handed, ih again others,
        ← rowsOf_cons]

theorem rowsOf_intercalate {rows : List (List (List UInt8))}
    (content : ∀ row ∈ rows, row ≠ [] ∧ ∀ field ∈ row, field ≠ [] ∧ Clean field) :
    rowsOf (rows.map [comma].intercalate) = rows := by
  have cut : ∀ row ∈ rows, ([comma].intercalate row).splitOn comma = row := by
    intro row member
    obtain ⟨filled, fields⟩ := content row member
    exact List.splitOn_intercalate comma (fun field here => (fields field here).2.noComma) filled
  have filled : ∀ line ∈ rows.map [comma].intercalate, line ≠ [] := by
    rw [List.forall_mem_map]
    intro row member empty
    have same := cut row member
    rw [empty, List.splitOn_nil] at same
    exact ((content row member).2 [] (same ▸ List.mem_singleton_self [])).1 rfl
  have all : (rows.map [comma].intercalate).filter (· ≠ []) = rows.map [comma].intercalate := by
    rw [List.filter_eq_self]
    exact fun line member => by simpa using filled line member
  rw [rowsOf, all, List.map_map]
  exact (List.map_congr_left cut).trans (List.map_id' rows)

def joined (ending final : List UInt8) (rows : List (List (List UInt8))) : List UInt8 :=
  ending.intercalate (rows.map [comma].intercalate) ++ final

theorem run_row {s : Scanner} {row : List (List UInt8)} (fresh : s.Alike {}) (filled : row ≠ [])
    (content : ∀ field ∈ row, field ≠ [] ∧ Clean field) :
    ∃ t, s.run ([comma].intercalate row) = ([], t) ∧ t.Ready ∧ t.finish.map Record.fields = [row] := by
  obtain ⟨t, done, ready, handed⟩ :=
    run_line_of_fresh fresh (unbroken_intercalate fun field member => (content field member).2)
  have same : rowsOf [[comma].intercalate row] = [row] :=
    rowsOf_intercalate (List.forall_mem_singleton.mpr ⟨filled, content⟩)
  exact ⟨t, done, ready, handed.trans same⟩

theorem scan_of_lines {lines : List (List UInt8)} {front ending final : List UInt8}
    (unbroken : ∀ line ∈ lines, Unbroken line) (ended : ending ≠ [])
    (breaks : ∀ b ∈ ending, isBreak b = true) (closing : ∀ b ∈ final, isBreak b = true)
    (fronts : Fronts front (ending.intercalate lines ++ final)) :
    (scan (front ++ (ending.intercalate lines ++ final))).map Record.fields = rowsOf lines := by
  rw [scan_eq_reach, reach_of_fronts fronts]
  have fresh : Scanner.Alike { bytes := front.length } {} := ⟨rfl, rfl, rfl⟩
  exact records_of_lines fresh unbroken ended breaks closing

theorem scan_lines {rows : List (List (List UInt8))} {ending final : List UInt8}
    (content : ∀ row ∈ rows, row ≠ [] ∧ ∀ field ∈ row, field ≠ [] ∧ Clean field)
    (ended : ending ≠ []) (breaks : ∀ b ∈ ending, isBreak b = true)
    (closing : ∀ b ∈ final, isBreak b = true)
    (unmarked : ¬ Text.Utf8.mark <+: joined ending final rows) :
    (scan (joined ending final rows)).map Record.fields = rows := by
  have unbroken : ∀ line ∈ rows.map [comma].intercalate, Unbroken line := by
    rw [List.forall_mem_map]
    exact fun row member => unbroken_intercalate fun field here => ((content row member).2 field here).2
  have fronts : Fronts [] (joined ending final rows) := Or.inr ⟨rfl, unmarked⟩
  exact (scan_of_lines unbroken ended breaks closing fronts).trans (rowsOf_intercalate content)

end FieldPlot.Table
