import FieldPlot.Proofs.Shape

/-!
Where the fields of a record stand. Only fields that hold something count for a reader: what it
takes for the column of a field is the position less the empty fields before it (`Stands`). Kind,
element type and extents are read from the first columns of a header, time and values from those of
a step, and a fault names the column of its field. The column is the position just where no empty
field stands before it.
-/
namespace FieldPlot.Recording

open Table (Record)

/-- A field that holds something, at a place counted from zero. The reader counts columns from one
    and passes over empty fields. -/
structure Stands (fields : List (List Char)) (column place : Nat) (field : List Char) : Prop where
  found : fields[place]? = some field
  filled : field ≠ []
  position : place + 1 = column + (fields.take place).count []

theorem Stands.column_eq_iff {fields : List (List Char)} {column place : Nat} {field : List Char}
    (stands : Stands fields column place field) :
    column = place + 1 ↔ [] ∉ fields.take place := by
  have position := stands.position
  rw [← List.count_eq_zero]
  omega

theorem Stands.cons_empty {fields : List (List Char)} {column place : Nat} {field : List Char}
    (stands : Stands fields column place field) :
    Stands ([] :: fields) column (place + 1) field where
  found := stands.found
  filled := stands.filled
  position := by
    have position := stands.position
    rw [List.take_succ_cons, List.count_cons_self]
    omega

theorem Stands.cons_filled {fields : List (List Char)} {column place : Nat}
    {first field : List Char} (stands : Stands fields column place field) (filled : first ≠ []) :
    Stands (first :: fields) (column + 1) (place + 1) field where
  found := stands.found
  filled := stands.filled
  position := by
    have position := stands.position
    rw [List.take_succ_cons, List.count_cons_of_ne filled]
    omega

theorem stands_of_filter {fields : List (List Char)} {k : Nat} {field : List Char}
    (found : (fields.filter (· ≠ []))[k]? = some field) :
    ∃ place, Stands fields (k + 1) place field := by
  -- An empty field in front moves the place only, any other one moves the column with it.
  induction fields generalizing k with
  | nil => contradiction
  | cons first fields ih =>
    by_cases empty : first = []
    · subst empty
      rw [List.filter_cons_of_neg (by simp)] at found
      obtain ⟨place, stands⟩ := ih found
      exact ⟨place + 1, stands.cons_empty⟩
    · rw [List.filter_cons_of_pos (by simpa using empty)] at found
      cases k with
      | zero =>
        obtain rfl : first = field := by simpa using found
        exact ⟨0, rfl, empty, by simp⟩
      | succ k =>
        obtain ⟨place, stands⟩ := ih (by simpa using found)
        exact ⟨place + 1, stands.cons_filled empty⟩

theorem length_filter_filled (fields : List (List Char)) :
    (fields.filter (· ≠ [])).length + fields.count [] = fields.length := by
  induction fields with
  | nil => rfl
  | cons first fields ih =>
    by_cases empty : first = []
    · subst empty
      rw [List.filter_cons_of_neg (by simp), List.count_cons_self, List.length_cons]
      omega
    · rw [List.filter_cons_of_pos (by simpa using empty), List.count_cons_of_ne empty,
        List.length_cons, List.length_cons]
      omega

theorem texts_of_filledFields {r : Record} {found : List (List Char)}
    (filled : filledFields r = .ok found) :
    ∃ fields, r.texts = .ok fields ∧ fields.filter (· ≠ []) = found := by
  cases texts : r.texts with
  | error cause =>
    rw [filledFields, texts] at filled
    contradiction
  | ok fields =>
    rw [filledFields, texts] at filled
    exact ⟨fields, rfl, Except.ok.inj filled⟩

theorem exists_of_forall₂ {α β : Type} {R : α → β → Prop} {xs : List α} {ys : List β}
    (all : List.Forall₂ R xs ys) {i : Nat} {y : β} (found : ys[i]? = some y) :
    ∃ x, xs[i]? = some x ∧ R x y := by
  induction all generalizing i with
  | nil => contradiction
  | cons first _ ih =>
    cases i with
    | zero =>
      obtain rfl := Option.some.inj found
      exact ⟨_, rfl, first⟩
    | succ i => exact ih found

structure StepIn (fields : List (List Char)) (step : Float × List Float) : Prop where
  time : ∃ place field, Stands fields 1 place field ∧ readTime field = some step.1
  value : ∀ (i : Nat) (v : Float), step.2[i]? = some v →
    ∃ place field, Stands fields (i + 2) place field ∧ Decimal.read field = .ok v
  rest : fields.length = step.2.length + 1 + fields.count []

theorem Holds.stepIn {header : Header} {r : Record} {step : Float × List Float}
    (holds : Holds header r (some step)) :
    ∃ fields, r.texts = .ok fields ∧ StepIn fields step := by
  cases holds with
  | @step time values t frame filled timed _ numbers =>
    obtain ⟨fields, texts, same⟩ := texts_of_filledFields filled
    refine ⟨fields, texts, ?_, ?_, ?_⟩
    · obtain ⟨place, stands⟩ := stands_of_filter (k := 0) (by rw [same]; rfl)
      exact ⟨place, time, stands, timed⟩
    · intro i v found
      obtain ⟨field, there, reads⟩ := exists_of_forall₂ numbers found
      obtain ⟨place, stands⟩ := stands_of_filter (k := i + 1) (by rw [same]; exact there)
      exact ⟨place, field, stands, reads⟩
    · have total := length_filter_filled fields
      rw [same, List.length_cons, numbers.length_eq] at total
      exact total.symm

theorem readExtents_of_ok (line column : Nat) {fields : List String} {extents : List Nat}
    (all : List.Forall₂ (fun field e => Text.Numeral.read 10 Word.limit field.toList = .ok e)
      fields extents) : Header.readExtents line column fields = .ok extents := by
  induction all generalizing column with
  | nil => rfl
  | cons first _ ih =>
    rw [Header.readExtents, first]
    simp only [ih]
    rfl

theorem readExtents_of_firstError (line column : Nat) {fields before : List String}
    {field : String} {cause : Text.Numeral.Fault}
    (bad : FirstError (fun field : String => Text.Numeral.read 10 Word.limit field.toList) fields
      before field cause) :
    Header.readExtents line column fields =
      .error (.field line (column + before.length) (.badExtent field cause)) := by
  obtain ⟨⟨after, rfl⟩, fine, fails⟩ := bad
  induction before generalizing column with
  | nil =>
    rw [List.nil_append, Header.readExtents, fails]
    rfl
  | cons y before ih =>
    obtain ⟨⟨e, first⟩, rest⟩ := List.forall_mem_cons.mp fine
    rw [List.cons_append, Header.readExtents, first]
    simp only [ih (column + 1) rest, List.length_cons, Nat.add_right_comm column, Nat.add_assoc]
    rfl

theorem readExtents_cases (line column : Nat) (fields : List String) :
    (∃ extents, Header.readExtents line column fields = .ok extents ∧
      List.Forall₂ (fun field e => Text.Numeral.read 10 Word.limit field.toList = .ok e)
        fields extents) ∨
    ∃ before field cause,
      FirstError (fun field : String => Text.Numeral.read 10 Word.limit field.toList) fields
        before field cause ∧
      Header.readExtents line column fields =
        .error (.field line (column + before.length) (.badExtent field cause)) := by
  rcases forall_ok_or_firstError
    (fun field : String => Text.Numeral.read 10 Word.limit field.toList) fields with
    ⟨extents, all⟩ | ⟨before, field, cause, bad⟩
  · exact .inl ⟨extents, readExtents_of_ok line column all, all⟩
  · exact .inr ⟨before, field, cause, bad, readExtents_of_firstError line column bad⟩

theorem ofFields_cons (line : Nat) (kind : String) (rest : List String) :
    Header.ofFields line (kind :: rest) =
      (Header.readExtents line 3 rest.tail).bind fun extents =>
        if (Header.frameLength? ⟨kind, rest.headD "", extents⟩).isNone then
          .error (.field line 3 (.hugeExtents extents))
        else .ok ⟨kind, rest.headD "", extents⟩ := by
  rw [Header.ofFields]
  simp only [bind, pure, Except.pure]
  congr 1

theorem parts_of_ofFields {line : Nat} {fields : List String} {header : Header}
    (declared : Header.ofFields line fields = .ok header) :
    ∃ kind rest, fields = kind :: rest ∧ header.kind = kind ∧ header.elementType = rest.headD "" ∧
      List.Forall₂ (fun field e => Text.Numeral.read 10 Word.limit field.toList = .ok e) rest.tail
        header.extents := by
  cases fields with
  | nil => contradiction
  | cons kind rest =>
    rw [ofFields_cons] at declared
    rcases readExtents_cases line 3 rest.tail with
      ⟨extents, read, all⟩ | ⟨before, field, cause, _, read⟩
    · rw [read, Except.bind] at declared
      split at declared
      · contradiction
      · obtain rfl := Except.ok.inj declared
        exact ⟨kind, rest, rfl, rfl, rfl, all⟩
    · rw [read] at declared
      contradiction

theorem stands_of_extent {fields : List (List Char)} {kind : List Char} {rest : List (List Char)}
    (same : fields.filter (· ≠ []) = kind :: rest) {k : Nat} {text : String}
    (there : (rest.map String.ofList).tail[k]? = some text) :
    ∃ place field, Stands fields (k + 3) place field ∧ String.ofList field = text := by
  rw [← List.map_tail, List.getElem?_map, Option.map_eq_some_iff] at there
  obtain ⟨field, there, same'⟩ := there
  rw [List.getElem?_tail] at there
  obtain ⟨place, stands⟩ := stands_of_filter (k := k + 2) (by
    rw [same, List.getElem?_cons_succ, there])
  exact ⟨place, field, stands, same'⟩

structure HeaderIn (fields : List (List Char)) (header : Header) : Prop where
  kind : ∃ place, Stands fields 1 place header.kind.toList
  elementType : (∃ place, Stands fields 2 place header.elementType.toList) ∧
      fields.length = header.rank + 2 + fields.count [] ∨
    header.elementType = "" ∧ header.rank = 0 ∧ fields.length = 1 + fields.count []
  extent : ∀ (i e : Nat), header.extents[i]? = some e →
    ∃ place field, Stands fields (i + 3) place field ∧
      Text.Numeral.read 10 Word.limit field = .ok e

theorem Declares.headerIn {first : Record} {header : Header} (declares : Declares first header) :
    ∃ fields, first.texts = .ok fields ∧ HeaderIn fields header := by
  obtain ⟨found, filled, declared⟩ := declares
  obtain ⟨fields, texts, same⟩ := texts_of_filledFields filled
  have total := length_filter_filled fields
  have stands : ∀ (k : Nat) (field : List Char), found[k]? = some field →
      ∃ place, Stands fields (k + 1) place field := by
    intro k field there
    exact stands_of_filter (same ▸ there)
  rw [same] at total
  refine ⟨fields, texts, ?_⟩
  cases found with
  | nil => contradiction
  | cons kind rest =>
    obtain ⟨_, _, parts, isKind, isType, extents⟩ := parts_of_ofFields declared
    obtain ⟨rfl, rfl⟩ := List.cons.inj parts
    have first := stands 0 kind rfl
    rw [← String.toList_ofList (l := kind), ← isKind] at first
    cases rest with
    | nil =>
      have none : header.extents = [] := List.forall₂_nil_left_iff.mp extents
      refine ⟨first, .inr ⟨isType, ?_, ?_⟩, ?_⟩
      · rw [Header.rank, none, List.length_nil]
      · rw [← total, List.length_singleton]
      · simp [none]
    | cons elementType rest =>
      have second := stands 1 elementType rfl
      rw [← String.toList_ofList (l := elementType)] at second
      have count := extents.length_eq
      refine ⟨first, .inl ⟨isType ▸ second, ?_⟩, ?_⟩
      · simp only [List.map_cons, List.tail_cons, List.length_map] at count
        rw [← total, List.length_cons, List.length_cons, count, Header.rank]
      · intro i e found
        obtain ⟨text, there, reads⟩ := exists_of_forall₂ extents found
        obtain ⟨place, field, stands, rfl⟩ := stands_of_extent same there
        exact ⟨place, field, stands, by rwa [String.toList_ofList] at reads⟩

/-- The field that a fault is about; of extents that are too large together it is the first. -/
inductive About : FieldFault → List Char → Prop where
  | time {field : List Char} (untimed : readTime field = none) :
      About (.badTime (String.ofList field)) field
  | value {field : List Char} {cause : Decimal.Literal.Fault}
      (fails : Decimal.read field = .error cause) :
      About (.badValue (String.ofList field) cause) field
  | extent {field : List Char} {cause : Text.Numeral.Fault}
      (fails : Text.Numeral.read 10 Word.limit field = .error cause) :
      About (.badExtent (String.ofList field) cause) field
  | extents {field : List Char} {first : Nat} {others : List Nat}
      (reads : Text.Numeral.read 10 Word.limit field = .ok first) :
      About (.hugeExtents (first :: others)) field

def FaultIn (r : Record) (line column : Nat) (fault : FieldFault) : Prop :=
  r.line = line ∧ ∃ fields place field, r.texts = .ok fields ∧
    Stands fields column place field ∧ About fault field

theorem Fault.faultIn {header : Header} {r : Record} {line column : Nat} {fault : FieldFault}
    (faulty : Fault header r (.field line column fault)) : FaultIn r line column fault := by
  cases faulty with
  | @time time values filled untimed =>
    obtain ⟨fields, texts, same⟩ := texts_of_filledFields filled
    obtain ⟨place, stands⟩ := stands_of_filter (k := 0) (by rw [same]; rfl)
    exact ⟨rfl, fields, place, time, texts, stands, .time untimed⟩
  | @value time values before field t cause filled _ _ bad =>
    obtain ⟨fields, texts, same⟩ := texts_of_filledFields filled
    obtain ⟨after, rfl⟩ := bad.split
    have there : (fields.filter (· ≠ []))[before.length + 1]? = some field := by
      rw [same, List.getElem?_cons_succ, List.getElem?_append_right (Nat.le_refl _), Nat.sub_self]
      rfl
    obtain ⟨place, stands⟩ := stands_of_filter there
    exact ⟨rfl, fields, place, field, texts, stands, .value bad.fails⟩

theorem Undeclared.faultIn {r : Record} {line column : Nat} {fault : FieldFault}
    (undeclared : Undeclared r (.field line column fault)) : FaultIn r line column fault := by
  cases undeclared with
  | text fails =>
    rcases forall_ok_or_firstError Record.decodeField r.fields with
      ⟨texts, decoded⟩ | ⟨before, field, good, broken⟩
    · rw [filledFields_of_decoded decoded] at fails
      contradiction
    · rw [filledFields_of_broken broken] at fails
      cases Except.error.inj fails
  | @fields found _ filled fails =>
    obtain ⟨fields, texts, same⟩ := texts_of_filledFields filled
    cases found with
    | nil => cases Except.error.inj fails
    | cons kind rest =>
      rw [List.map_cons, ofFields_cons] at fails
      rcases readExtents_cases r.line 3 (rest.map String.ofList).tail with
        ⟨extents, read, all⟩ | ⟨before, field, cause, bad, read⟩
      · rw [read, Except.bind] at fails
        split at fails
        · rename_i huge
          obtain ⟨rfl, rfl, rfl⟩ := Error.field.inj (Except.error.inj fails)
          -- The channels alone are never too many, so there is a first extent.
          cases extents with
          | nil => contradiction
          | cons first others =>
            obtain ⟨text, there, reads⟩ := exists_of_forall₂ all (i := 0) rfl
            obtain ⟨place, field, stands, rfl⟩ := stands_of_extent same there
            rw [String.toList_ofList] at reads
            exact ⟨rfl, fields, place, field, texts, stands, .extents reads⟩
        · contradiction
      · rw [read] at fails
        obtain ⟨rfl, rfl, rfl⟩ := Error.field.inj (Except.error.inj fails)
        obtain ⟨after, parts⟩ := bad.split
        have there : (rest.map String.ofList).tail[before.length]? = some field := by
          rw [parts, List.getElem?_append_right (Nat.le_refl _), Nat.sub_self]
          rfl
        obtain ⟨place, field, stands, rfl⟩ := stands_of_extent same there
        have fails := bad.fails
        rw [String.toList_ofList] at fails
        rw [Nat.add_comm 3]
        exact ⟨rfl, fields, place, field, texts, stands, .extent fails⟩

theorem FailsAt.faultIn {bytes : List UInt8} {r : Record} {line column : Nat} {fault : FieldFault}
    (here : FailsAt bytes r (.field line column fault)) : FaultIn r line column fault := by
  cases here with
  | header _ undeclared => exact undeclared.faultIn
  | step _ _ faulty => exact faulty.fault.faultIn

/-- Header and steps are read from their columns, and every fault of a field names its column. This
    is the position of the field in its record, unless an empty field stands before it. -/
theorem fields_stand_in_columns (bytes : List UInt8) :
    (∀ recording, read bytes = .ok recording →
      ∃ first rest fields, Table.scan bytes = first :: rest ∧ first.texts = .ok fields ∧
        HeaderIn fields recording.header ∧
        List.Forall₂ (fun r step => ∃ fields, r.texts = .ok fields ∧ StepIn fields step)
          (rest.filter hasContent) (recording.times.zip recording.frames)) ∧
    (∀ line column fault, read bytes = .error (.field line column fault) →
      ∃ r, FailsAt bytes r (.field line column fault) ∧ FaultIn r line column fault) ∧
    (∀ fields column place field, Stands fields column place field →
      (column = place + 1 ↔ [] ∉ fields.take place)) := by
  refine ⟨fun recording done => ?_, fun line column fault fails => ?_,
    fun fields column place field stands => stands.column_eq_iff⟩
  · obtain ⟨first, rest, header, steps, scanned, declares, hold, rfl, times, frames⟩ :=
      parts_of_read done
    obtain ⟨fields, texts, headerIn⟩ := declares.headerIn
    refine ⟨first, rest, fields, scanned, texts, headerIn, ?_⟩
    rw [← List.zip_of_prod times.symm frames.symm]
    exact hold.forall₂.imp fun r step holds => holds.stepIn
  · rcases failsAt_of_read fails with missing | ⟨r, here⟩
    · contradiction
    · exact ⟨r, here, here.faultIn⟩

def gapped : List UInt8 :=
  Text.Utf8.encode "Mat,CV_64F,2,\n1ms,1,,2,,\n".toList

def gappedFlawed : List UInt8 :=
  Text.Utf8.encode "Mat,CV_64F,2\n1ms,,x,1\n".toList

theorem read_gapped : ∃ recording, read gapped = .ok recording ∧ recording.frames = [[1, 2]] := by
  have frames : (read gapped).map Recording.frames = .ok [[1, 2]] := by decide +kernel
  exact map_eq_ok frames

theorem read_gappedFlawed : read gappedFlawed = .error (.field 2 2 (.badValue "x" .malformed)) := by
  have fails : (read gappedFlawed).map Recording.frames =
      .error (.field 2 2 (.badValue "x" .malformed)) := by
    decide +kernel
  exact map_eq_error fails

theorem fields_stand_of_gapped :
    (∃ recording, read gapped = .ok recording ∧
      ∃ first rest fields, Table.scan gapped = first :: rest ∧ first.texts = .ok fields ∧
        HeaderIn fields recording.header ∧
        List.Forall₂ (fun r step => ∃ fields, r.texts = .ok fields ∧ StepIn fields step)
          (rest.filter hasContent) (recording.times.zip recording.frames)) ∧
    (∃ r, FailsAt gappedFlawed r (.field 2 2 (.badValue "x" .malformed)) ∧
      FaultIn r 2 2 (.badValue "x" .malformed)) ∧
    Stands ["1ms".toList, [], "x".toList] 2 2 "x".toList ∧
    (2 = 2 + 1 ↔ [] ∉ ["1ms".toList, [], "x".toList].take 2) := by
  have stands : Stands ["1ms".toList, [], "x".toList] 2 2 "x".toList :=
    ⟨by decide, by decide, by decide⟩
  obtain ⟨recording, done, _⟩ := read_gapped
  obtain ⟨accepted, _, columns⟩ := fields_stand_in_columns gapped
  obtain ⟨_, refused, _⟩ := fields_stand_in_columns gappedFlawed
  exact ⟨⟨recording, done, accepted recording done⟩, refused 2 2 _ read_gappedFlawed, stands,
    columns _ _ _ _ stands⟩

/-- Behind an empty field, a value is taken for that of an earlier field, and a fault names the
    column of an earlier field. -/
theorem gap_shifts_columns :
    (∃ recording r, read gapped = .ok recording ∧ recording.frames = [[1, 2]] ∧
      (Table.scan gapped)[1]? = some r ∧
      r.texts = .ok ["1ms".toList, "1".toList, [], "2".toList, [], []] ∧
      ∀ v, Decimal.read [] ≠ .ok v) ∧
    (∃ r, read gappedFlawed = .error (.field 2 2 (.badValue "x" .malformed)) ∧
      (Table.scan gappedFlawed)[1]? = some r ∧
      r.texts = .ok ["1ms".toList, [], "x".toList, "1".toList] ∧
      ["1ms".toList, [], "x".toList, "1".toList][2 - 1]? ≠ some "x".toList) := by
  obtain ⟨recording, done, frames⟩ := read_gapped
  have unread : ∀ v, Decimal.read [] ≠ .ok v := by
    simp [Decimal.read, Decimal.Literal.read, Except.map]
  exact ⟨⟨recording, recordOf 1 2 14 ["1ms", "1", "", "2", "", ""], done, frames,
      by decide +kernel, by decide +kernel, unread⟩,
    recordOf 1 2 13 ["1ms", "", "x", "1"], read_gappedFlawed, by decide +kernel,
    by decide +kernel, by decide⟩

end FieldPlot.Recording
