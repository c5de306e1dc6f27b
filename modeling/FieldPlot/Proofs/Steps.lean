import FieldPlot.Proofs.Outcomes
import FieldPlot.Recording.Reading

/-!
What the records behind a header hold. A record holds nothing, or a step, or has a fault; of several
faults in a record the first in reading order is its fault (`Holds`, `Fault`). Records are read from
the first to the last: all steps in order, or the fault of the first record that has one.
-/
namespace FieldPlot

namespace Table.Record

def decodeField (field : List UInt8) : Except Nat (List Char) :=
  (Text.Utf8.decode (Text.stripBoth Text.isBlankByte field)).map Text.trim

variable (r : Record)

theorem textsFrom_cons (i : Nat) (field : List UInt8) (fields : List (List UInt8)) :
    r.textsFrom i (field :: fields) =
      match decodeField field with
      | .error good => .error (.brokenText ⟨r.number, r.line, r.byte, i, good⟩)
      | .ok text => (r.textsFrom (i + 1) fields).map (text :: ·) := by
  rw [textsFrom, decodeField]
  cases Text.Utf8.decode (Text.stripBoth Text.isBlankByte field) with
  | error good => rfl
  | ok text => rfl

theorem textsFrom_of_ok (i : Nat) {fields : List (List UInt8)} {texts : List (List Char)}
    (all : List.Forall₂ (fun field text => decodeField field = .ok text) fields texts) :
    r.textsFrom i fields = .ok texts := by
  induction all generalizing i with
  | nil => rfl
  | cons first _ ih =>
    rw [textsFrom_cons, first]
    simp only [ih]
    rfl

theorem textsFrom_of_firstError (i : Nat) {fields before : List (List UInt8)} {field : List UInt8}
    {good : Nat} (broken : FirstError decodeField fields before field good) :
    r.textsFrom i fields =
      .error (.brokenText ⟨r.number, r.line, r.byte, i + before.length, good⟩) := by
  obtain ⟨⟨after, rfl⟩, fine, fails⟩ := broken
  induction before generalizing i with
  | nil =>
    rw [List.nil_append, textsFrom_cons, fails]
    rfl
  | cons y before ih =>
    obtain ⟨⟨text, first⟩, rest⟩ := List.forall_mem_cons.mp fine
    rw [List.cons_append, textsFrom_cons, first]
    simp only [ih (i + 1) rest, List.length_cons, Nat.add_right_comm i, Nat.add_assoc]
    rfl

end Table.Record

namespace Recording

open Table (Record)

theorem readValues_of_ok (line column : Nat) {fields : List (List Char)} {frame : List Float}
    (all : List.Forall₂ (fun field v => Decimal.read field = .ok v) fields frame) :
    readValues line column fields = .ok frame := by
  induction all generalizing column with
  | nil => rfl
  | cons first _ ih =>
    rw [readValues, first]
    simp only [ih]
    rfl

theorem readValues_of_firstError (line column : Nat) {fields before : List (List Char)}
    {field : List Char} {cause : Decimal.Literal.Fault}
    (bad : FirstError Decimal.read fields before field cause) :
    readValues line column fields =
      .error (.field line (column + before.length) (.badValue (String.ofList field) cause)) := by
  obtain ⟨⟨after, rfl⟩, fine, fails⟩ := bad
  induction before generalizing column with
  | nil =>
    rw [List.nil_append, readValues, fails]
    rfl
  | cons y before ih =>
    obtain ⟨⟨v, first⟩, rest⟩ := List.forall_mem_cons.mp fine
    rw [List.cons_append, readValues, first]
    simp only [ih (column + 1) rest, List.length_cons, Nat.add_right_comm column, Nat.add_assoc]
    rfl

inductive Holds (header : Header) (r : Record) : Option (Float × List Float) → Prop where
  | nothing (blank : filledFields r = .ok []) : Holds header r none
  | step {time : List Char} {fields : List (List Char)} {t : Float} {frame : List Float}
      (filled : filledFields r = .ok (time :: fields)) (timed : readTime time = some t)
      (count : fields.length = header.frameLength)
      (numbers : List.Forall₂ (fun field v => Decimal.read field = .ok v) fields frame) :
      Holds header r (some (t, frame))

/-- The fault of a record: bytes that are no text, a bad time stamp, a wrong number of values, or
    the leftmost value that is no number, in this order. -/
inductive Fault (header : Header) (r : Record) : Error → Prop where
  | text {before : List (List UInt8)} {field : List UInt8} {good : Nat}
      (broken : FirstError Record.decodeField r.fields before field good) :
      Fault header r (.brokenText ⟨r.number, r.line, r.byte, before.length, good⟩)
  | time {time : List Char} {fields : List (List Char)}
      (filled : filledFields r = .ok (time :: fields)) (untimed : readTime time = none) :
      Fault header r (.field r.line 1 (.badTime (String.ofList time)))
  | count {time : List Char} {fields : List (List Char)} {t : Float}
      (filled : filledFields r = .ok (time :: fields)) (timed : readTime time = some t)
      (miscount : fields.length ≠ header.frameLength) :
      Fault header r
        (.shapeMismatch header.extents header.frameLength fields.length (some r.line))
  | value {time : List Char} {fields before : List (List Char)} {field : List Char} {t : Float}
      {cause : Decimal.Literal.Fault}
      (filled : filledFields r = .ok (time :: fields)) (timed : readTime time = some t)
      (count : fields.length = header.frameLength)
      (bad : FirstError Decimal.read fields before field cause) :
      Fault header r
        (.field r.line (before.length + 2) (.badValue (String.ofList field) cause))

variable {header : Header} {r : Record}

theorem readStep_of_holds {found : Option (Float × List Float)} (holds : Holds header r found) :
    readStep header r = .ok found := by
  cases holds with
  | nothing blank =>
    rw [readStep, blank]
    rfl
  | step filled timed count numbers =>
    rw [readStep, filled]
    simp [bind, Except.bind, pure, Except.pure, timed, count, readValues_of_ok _ _ numbers]

theorem filledFields_of_decoded {texts : List (List Char)}
    (decoded : List.Forall₂ (fun field text => Record.decodeField field = .ok text) r.fields texts) :
    filledFields r = .ok (texts.filter (· ≠ [])) := by
  rw [filledFields, Record.texts, r.textsFrom_of_ok 0 decoded]
  rfl

theorem filledFields_of_broken {before : List (List UInt8)} {field : List UInt8} {good : Nat}
    (broken : FirstError Record.decodeField r.fields before field good) :
    filledFields r = .error (.brokenText ⟨r.number, r.line, r.byte, before.length, good⟩) := by
  rw [filledFields, Record.texts, r.textsFrom_of_firstError 0 broken, Nat.zero_add]
  rfl

/-- The texts of the fields are these, but for the texts without a character. -/
def Filled (fields : List (List UInt8)) (found : List (List Char)) : Prop :=
  ∃ texts, List.Forall₂ (fun field text => Record.decodeField field = .ok text) fields texts ∧
    texts.filter (· ≠ []) = found

theorem filledFields_eq_ok_iff {found : List (List Char)} :
    filledFields r = .ok found ↔ Filled r.fields found := by
  constructor
  · intro done
    rcases forall_ok_or_firstError Record.decodeField r.fields with
      ⟨texts, decoded⟩ | ⟨before, field, good, broken⟩
    · exact ⟨texts, decoded, Except.ok.inj ((filledFields_of_decoded decoded).symm.trans done)⟩
    · rw [filledFields_of_broken broken] at done
      contradiction
  · rintro ⟨texts, decoded, rfl⟩
    exact filledFields_of_decoded decoded

theorem readStep_of_fault {cause : Error} (fault : Fault header r cause) :
    readStep header r = .error cause := by
  cases fault with
  | text broken =>
    rw [readStep, filledFields_of_broken broken]
    rfl
  | time filled untimed =>
    rw [readStep, filled]
    simp only [bind, Except.bind, untimed]
    rfl
  | count filled timed miscount =>
    rw [readStep, filled]
    simp only [bind, Except.bind, timed, ne_eq, miscount, not_false_eq_true, if_true]
    rfl
  | value filled timed count bad =>
    rw [readStep, filled]
    simp [bind, Except.bind, timed, count, readValues_of_firstError _ _ bad, Nat.add_comm]

theorem holds_or_fault (header : Header) (r : Record) :
    (∃ found, Holds header r found) ∨ ∃ cause, Fault header r cause := by
  rcases forall_ok_or_firstError Record.decodeField r.fields with
    ⟨texts, decoded⟩ | ⟨before, field, good, broken⟩
  · -- The checks of a record, in the order in which it is read.
    have filled := filledFields_of_decoded decoded
    cases fields : texts.filter (· ≠ []) with
    | nil => exact .inl ⟨none, .nothing (fields ▸ filled)⟩
    | cons time values =>
      rw [fields] at filled
      cases timed : readTime time with
      | none => exact .inr ⟨_, .time filled timed⟩
      | some t =>
        by_cases count : values.length = header.frameLength
        · rcases forall_ok_or_firstError Decimal.read values with
            ⟨frame, numbers⟩ | ⟨before, field, cause, bad⟩
          · exact .inl ⟨_, .step filled timed count numbers⟩
          · exact .inr ⟨_, .value filled timed count bad⟩
        · exact .inr ⟨_, .count filled timed count⟩
  · exact .inr ⟨_, .text broken⟩

theorem readStep_eq_ok_iff {found : Option (Float × List Float)} :
    readStep header r = .ok found ↔ Holds header r found := by
  refine ⟨fun done => ?_, readStep_of_holds⟩
  rcases holds_or_fault header r with ⟨found', holds⟩ | ⟨cause, fault⟩
  · obtain rfl := Except.ok.inj (done.symm.trans (readStep_of_holds holds))
    exact holds
  · rw [readStep_of_fault fault] at done
    contradiction

theorem readStep_eq_error_iff {cause : Error} :
    readStep header r = .error cause ↔ Fault header r cause := by
  refine ⟨fun done => ?_, readStep_of_fault⟩
  rcases holds_or_fault header r with ⟨found, holds⟩ | ⟨cause', fault⟩
  · rw [readStep_of_holds holds] at done
    contradiction
  · obtain rfl := Except.error.inj (done.symm.trans (readStep_of_fault fault))
    exact fault

inductive HoldSteps (header : Header) : List Record → List (Float × List Float) → Prop where
  | nil : HoldSteps header [] []
  | nothing {r : Record} {records : List Record} {steps : List (Float × List Float)}
      (blank : Holds header r none) (rest : HoldSteps header records steps) :
      HoldSteps header (r :: records) steps
  | step {r : Record} {records : List Record} {step : Float × List Float}
      {steps : List (Float × List Float)} (holds : Holds header r (some step))
      (rest : HoldSteps header records steps) : HoldSteps header (r :: records) (step :: steps)

structure FirstFault (header : Header) (records : List Record) (r : Record) (cause : Error) :
    Prop where
  split : ∃ before after, records = before ++ r :: after ∧
    ∀ earlier ∈ before, ∃ found, Holds header earlier found
  fault : Fault header r cause

theorem holdSteps_of_all {records : List Record}
    (all : ∀ r ∈ records, ∃ found, Holds header r found) :
    ∃ steps, HoldSteps header records steps := by
  induction records with
  | nil => exact ⟨[], .nil⟩
  | cons r records ih =>
    obtain ⟨⟨found, first⟩, rest⟩ := List.forall_mem_cons.mp all
    obtain ⟨steps, hold⟩ := ih rest
    cases found with
    | none => exact ⟨steps, .nothing first hold⟩
    | some step => exact ⟨step :: steps, .step first hold⟩

theorem firstFault_of_not_all {records : List Record}
    (faulty : ¬ ∀ r ∈ records, ∃ found, Holds header r found) :
    ∃ r cause, FirstFault header records r cause := by
  induction records with
  | nil => exact absurd (by simp) faulty
  | cons r records ih =>
    rcases holds_or_fault header r with ⟨found, holds⟩ | ⟨cause, fault⟩
    · have rest : ¬ ∀ r ∈ records, ∃ found, Holds header r found := fun all =>
        faulty (List.forall_mem_cons.mpr ⟨⟨found, holds⟩, all⟩)
      obtain ⟨bad, cause, ⟨before, after, rfl, fine⟩, fault⟩ := ih rest
      exact ⟨bad, cause, ⟨r :: before, after, rfl, List.forall_mem_cons.mpr ⟨⟨found, holds⟩, fine⟩⟩,
        fault⟩
    · exact ⟨r, cause, ⟨[], records, rfl, by simp⟩, fault⟩

theorem readSteps_of_holdSteps {records : List Record} {steps : List (Float × List Float)}
    (hold : HoldSteps header records steps) : readSteps header records = .ok steps := by
  induction hold with
  | nil => rfl
  | nothing blank _ ih =>
    rw [readSteps, readStep_of_holds blank]
    simp only [bind, Except.bind, ih]
    rfl
  | step holds _ ih =>
    rw [readSteps, readStep_of_holds holds]
    simp only [bind, Except.bind, ih]
    rfl

theorem readSteps_of_firstFault {records : List Record} {cause : Error}
    (faulty : FirstFault header records r cause) : readSteps header records = .error cause := by
  obtain ⟨⟨before, after, rfl, fine⟩, fault⟩ := faulty
  induction before with
  | nil =>
    rw [List.nil_append, readSteps, readStep_of_fault fault]
    rfl
  | cons earlier before ih =>
    obtain ⟨⟨found, holds⟩, rest⟩ := List.forall_mem_cons.mp fine
    rw [List.cons_append, readSteps, readStep_of_holds holds]
    simp only [bind, Except.bind, ih rest]

theorem Holds.of_filled {r r' : Record} {found : Option (Float × List Float)}
    (same : ∀ texts, Filled r.fields texts → Filled r'.fields texts)
    (holds : Holds header r found) : Holds header r' found := by
  have filled : ∀ texts, filledFields r = .ok texts → filledFields r' = .ok texts := fun texts done =>
    filledFields_eq_ok_iff.mpr (same texts (filledFields_eq_ok_iff.mp done))
  cases holds with
  | nothing blank => exact .nothing (filled _ blank)
  | step filled' timed count numbers => exact .step (filled _ filled') timed count numbers

theorem Holds.congr {r r' : Record} {found : Option (Float × List Float)}
    (holds : Holds header r found) (same : r.fields = r'.fields) : Holds header r' found :=
  holds.of_filled fun _ filled => same ▸ filled

namespace HoldSteps

variable {records further : List Record} {steps added : List (Float × List Float)}

theorem append (first : HoldSteps header records steps) (second : HoldSteps header further added) :
    HoldSteps header (records ++ further) (steps ++ added) := by
  induction first with
  | nil => exact second
  | nothing blank _ ih => exact .nothing blank ih
  | step holds _ ih => exact .step holds ih

theorem congr (hold : HoldSteps header records steps)
    (same : records.map Record.fields = further.map Record.fields) :
    HoldSteps header further steps := by
  induction hold generalizing further with
  | nil =>
    obtain rfl := List.map_eq_nil_iff.mp same.symm
    exact .nil
  | nothing blank _ ih =>
    obtain ⟨r', others, rfl, alike, rest⟩ := List.map_eq_cons_iff.mp same.symm
    exact .nothing (blank.congr alike.symm) (ih rest.symm)
  | step holds _ ih =>
    obtain ⟨r', others, rfl, alike, rest⟩ := List.map_eq_cons_iff.mp same.symm
    exact .step (holds.congr alike.symm) (ih rest.symm)

theorem frames_length (hold : HoldSteps header records steps) :
    ∀ frame ∈ steps.map Prod.snd, frame.length = header.frameLength := by
  induction hold with
  | nil => simp
  | nothing _ _ ih => exact ih
  | step holds _ ih =>
    rw [List.map_cons, List.forall_mem_cons]
    cases holds with
    | step filled timed count numbers => exact ⟨numbers.length_eq.symm.trans count, ih⟩

end HoldSteps

end Recording
end FieldPlot
