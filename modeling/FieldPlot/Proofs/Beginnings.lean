import FieldPlot.Proofs.Records

/-!
Where records begin. The reading of a record begins behind the byte that ends the record before it, and
that of the first one at the start of the table. The number, the line and the byte that a record carries
are those of this place (`exists_begins`).
-/
namespace FieldPlot.Table

def Record.place (r : Record) : Nat × Nat × Nat :=
  (r.number, r.line, r.byte)

namespace Scanner

def place (s : Scanner) : Nat × Nat × Nat :=
  (s.number, s.line, s.byte)

structure Turns (s : Scanner) (turn : Scanner × Option Record) : Prop where
  feeds : turn.1.feeds = s.feeds
  bytes : turn.1.bytes = s.bytes
  number : turn.1.number = s.number + turn.2.toList.length
  kept : turn.2 = none → turn.1.place = s.place
  handed : ∀ r ∈ turn.2, r.place = s.place ∧
    turn.1.line = turn.1.feeds + 1 ∧ turn.1.byte = turn.1.bytes

theorem turns_of_none {s t : Scanner} (feeds : t.feeds = s.feeds) (bytes : t.bytes = s.bytes)
    (place : t.place = s.place) : Turns s (t, none) :=
  ⟨feeds, bytes, congrArg Prod.fst place, fun _ => place, nofun⟩

theorem turns_of_record (s : Scanner) : Turns s (s.endRecord, some s.record) where
  feeds := rfl
  bytes := rfl
  number := rfl
  kept := nofun
  handed := by
    rintro _ ⟨⟩
    exact ⟨rfl, rfl, rfl⟩

theorem turns_unquoted (s : Scanner) (b : UInt8) : Turns s (s.unquoted b) := by
  unfold unquoted
  split
  · exact turns_of_none rfl rfl rfl
  · split
    · exact turns_of_record s
    · exact turns_of_none rfl rfl rfl

theorem turns_opening (s : Scanner) (b : UInt8) : Turns s (s.opening b) := by
  unfold opening
  split
  · exact turns_of_none rfl rfl rfl
  · exact turns_unquoted s b

theorem turns_step (s : Scanner) (b : UInt8) : Turns (s.count b) (s.step b) := by
  unfold step
  cases s.spot with
  | between =>
    simp only
    split
    · exact turns_of_none rfl rfl rfl
    · exact turns_opening _ b
  | fieldStart => exact turns_opening _ b
  | plain => exact turns_unquoted _ b
  | quoted =>
    simp only
    split
    · exact turns_of_none rfl rfl rfl
    · exact turns_of_none rfl rfl rfl
  | closed =>
    simp only
    split
    · exact turns_of_none rfl rfl rfl
    · exact turns_unquoted _ b

structure Counts (s : Scanner) (bytes : List UInt8) (t : Scanner) (records : Nat) : Prop where
  feeds : t.feeds = s.feeds + bytes.count lineFeed
  bytes : t.bytes = s.bytes + bytes.length
  number : t.number = s.number + records

theorem counts_run (s : Scanner) (bytes : List UInt8) :
    Counts s bytes (s.run bytes).2 (s.run bytes).1.length := by
  induction bytes generalizing s with
  | nil => exact ⟨rfl, rfl, rfl⟩
  | cons b rest ih =>
    obtain ⟨feeds, bytes, number⟩ := ih (s.step b).1
    have turn := turns_step s b
    rw [run_cons]
    constructor
    · rw [feeds, turn.feeds, List.count_cons, Nat.add_comm (rest.count lineFeed), ← Nat.add_assoc]
      rfl
    · rw [bytes, turn.bytes, List.length_cons, Nat.add_comm rest.length, ← Nat.add_assoc]
      rfl
    · rw [number, turn.number, List.length_append, ← Nat.add_assoc]
      rfl

theorem place_of_next (s : Scanner) (bytes : List UInt8) :
    ∀ r ∈ ((s.run bytes).1 ++ (s.run bytes).2.finish).head?, r.place = s.place := by
  induction bytes generalizing s with
  | nil =>
    unfold run finish
    split
    · simp
    · simp [record, Record.place, place]
  | cons b rest ih =>
    have turn := turns_step s b
    rw [run_cons]
    cases outcome : (s.step b).2 with
    | none =>
      have same : (s.step b).1.place = s.place := turn.kept outcome
      rw [← same]
      exact ih (s.step b).1
    | some r =>
      rintro _ ⟨⟩
      exact (turn.handed r outcome).1

theorem exists_end {s : Scanner} {bytes : List UInt8} {earlier later : List Record} {last : Record}
    (split : (s.run bytes).1 ++ (s.run bytes).2.finish = earlier ++ last :: later)
    (more : later ≠ []) :
    ∃ front b tail, bytes = front ++ b :: tail ∧ (s.run front).1 = earlier ∧
      ((s.run front).2.step b).2 = some last := by
  induction bytes generalizing s earlier with
  | nil =>
    -- The end of the table ends one record at most.
    have few : s.finish.length ≤ 1 := by
      unfold finish
      split_ifs
      · exact Nat.zero_le 1
      · exact Nat.le_refl 1
    have many := List.length_pos_iff.mpr more
    have length := congrArg List.length split
    simp only [run, List.nil_append, List.length_append, List.length_cons] at length
    omega
  | cons b rest ih =>
    rw [run_cons] at split
    cases outcome : (s.step b).2 with
    | none =>
      rw [outcome] at split
      obtain ⟨front, c, tail, rfl, records, ends⟩ := ih split
      refine ⟨b :: front, c, tail, rfl, ?_, ?_⟩
      · rw [run_cons, outcome]
        exact records
      · rw [run_cons]
        exact ends
    | some r =>
      rw [outcome] at split
      cases earlier with
      | nil =>
        obtain ⟨rfl, _⟩ := List.cons.inj split
        exact ⟨[], b, rest, rfl, rfl, outcome⟩
      | cons r' earlier =>
        obtain ⟨rfl, others⟩ := List.cons.inj split
        obtain ⟨front, c, tail, rfl, records, ends⟩ := ih others
        refine ⟨b :: front, c, tail, rfl, ?_, ?_⟩
        · rw [run_cons, outcome]
          exact congrArg (r :: ·) records
        · rw [run_cons]
          exact ends

theorem run_of_end {s : Scanner} {piece : List UInt8} {b : UInt8} {earlier : List Record}
    {last : Record} (records : (s.run piece).1 = earlier)
    (ends : ((s.run piece).2.step b).2 = some last) :
    s.run (piece ++ [b]) = (earlier ++ [last], ((s.run piece).2.step b).1) := by
  rw [run_append, run_cons, records, ends]
  rfl

/-- Behind a byte that ends a record, the next record has the place that has been counted up to. -/
theorem place_behind {s : Scanner} {piece tail : List UInt8} {b : UInt8} {earlier after : List Record}
    {last r : Record} (records : (s.run piece).1 = earlier)
    (ends : ((s.run piece).2.step b).2 = some last)
    (split : (s.run (piece ++ b :: tail)).1 ++ (s.run (piece ++ b :: tail)).2.finish =
      earlier ++ last :: r :: after) :
    r.number = s.number + (earlier ++ [last]).length ∧
      r.line = s.feeds + (piece ++ [b]).count lineFeed + 1 ∧
      r.byte = s.bytes + (piece ++ [b]).length := by
  have behind := run_of_end records ends
  obtain ⟨feeds, bytes, number⟩ := counts_run s (piece ++ [b])
  obtain ⟨_, line, byte⟩ := (turns_step (s.run piece).2 b).handed last ends
  rw [List.append_cons, run_append, behind, List.append_assoc, ← List.append_cons] at split
  rw [behind] at feeds bytes number
  have later : (((s.run piece).2.step b).1.run tail).1 ++
      (((s.run piece).2.step b).1.run tail).2.finish = r :: after :=
    (List.cons.inj (List.append_cancel_left split)).2
  have next := place_of_next ((s.run piece).2.step b).1 tail r (by rw [later]; rfl)
  refine ⟨?_, ?_, ?_⟩
  · exact (congrArg (·.1) next).trans number
  · rw [← feeds, ← line]
    exact congrArg (·.2.1) next
  · rw [← bytes, ← byte]
    exact congrArg (·.2.2) next

end Scanner

/-- The reading of a record begins behind this front of the table: behind the byte that ends the last
    record before it, or at the start. -/
structure Begins (bytes front : List UInt8) (before : List Record) (r : Record) : Prop where
  part : front <+: bytes
  records : (reach front).1 = before
  behind : before ≠ [] → (reach front.dropLast).1 = before.dropLast
  start : before = [] → front = []
  number : r.number = before.length
  line : r.line = front.count lineFeed + 1
  byte : r.byte = front.length

theorem exists_begins {bytes : List UInt8} {before after : List Record} {r : Record}
    (scanned : scan bytes = before ++ r :: after) : ∃ front, Begins bytes front before r := by
  obtain ⟨skip, body, rfl, fronts⟩ := exists_fronts bytes
  have reached : ∀ piece, piece <+: body →
      reach (skip ++ piece) = ({ bytes := skip.length } : Scanner).run piece := fun piece part =>
    reach_of_fronts (fronts.of_prefix part)
  rw [scan_eq_reach, reached body (List.prefix_refl body)] at scanned
  rcases List.eq_nil_or_concat' before with rfl | ⟨earlier, last, rfl⟩
  · have place := Scanner.place_of_next { bytes := skip.length } body r (by rw [scanned]; rfl)
    exact ⟨[], List.nil_prefix, rfl, fun some => absurd rfl some, fun _ => rfl,
      congrArg (·.1) place, congrArg (·.2.1) place, congrArg (·.2.2) place⟩
  · rw [List.append_assoc, List.singleton_append] at scanned
    obtain ⟨piece, b, tail, rfl, records, ends⟩ := Scanner.exists_end scanned (List.cons_ne_nil r after)
    obtain ⟨number, line, byte⟩ := Scanner.place_behind records ends scanned
    have noFeed : skip.count lineFeed = 0 := by
      rcases fronts with rfl | ⟨rfl, _⟩
      · decide
      · rfl
    have short : piece <+: piece ++ b :: tail := List.prefix_append _ _
    have whole : piece ++ [b] <+: piece ++ b :: tail := ⟨tail, by simp⟩
    refine ⟨skip ++ (piece ++ [b]), (List.prefix_append_right_inj skip).mpr whole, ?_, fun _ => ?_,
      fun none => absurd none (by simp), ?_, ?_, ?_⟩
    · rw [reached _ whole, Scanner.run_of_end records ends]
    · rw [← List.append_assoc, List.dropLast_concat, List.dropLast_concat, reached _ short, records]
    · rw [number, Nat.zero_add]
    · have feeds : (skip ++ (piece ++ [b])).count lineFeed = 0 + (piece ++ [b]).count lineFeed := by
        rw [List.count_append, noFeed]
      rw [line, feeds]
    · rw [byte, ← List.length_append]

theorem line_of_scan {bytes : List UInt8} {first : Record} {rest : List Record}
    (scanned : scan bytes = first :: rest) : first.line = 1 := by
  obtain ⟨front, begins⟩ := exists_begins (show scan bytes = [] ++ first :: rest from scanned)
  rw [begins.line, begins.start rfl]
  rfl

end FieldPlot.Table
