import FieldPlot.Proofs.Reading

/-!
The shape of recordings. However a recording is made, it has as many times as frames, and frames of
as many values as the channels times the extents (`Shaped`). A text never fails for the shape of the
whole, only at a place.
-/
namespace FieldPlot.Recording

open Table (Record)

variable {header : Header} {times : List Float} {frames : List (List Float)}

def hasContent (r : Record) : Bool :=
  r.fields.any fun field =>
    match Record.decodeField field with
    | .ok [] => false
    | _ => true

theorem hasContent_of_decoded {r : Record} {texts : List (List Char)}
    (decoded : List.Forall₂ (fun field text => Record.decodeField field = .ok text) r.fields texts) :
    hasContent r = !(texts.filter (· ≠ [])).isEmpty := by
  unfold hasContent
  generalize r.fields = fields at decoded
  induction decoded with
  | nil => simp
  | @cons field text fields texts first _ ih =>
    rw [List.any_cons, first]
    cases text with
    | nil => simpa using ih
    | cons c text => simp

theorem Holds.hasContent {r : Record} {found : Option (Float × List Float)}
    (holds : Holds header r found) : hasContent r = found.isSome := by
  cases holds with
  | nothing blank =>
    obtain ⟨texts, decoded, none⟩ := filledFields_eq_ok_iff.mp blank
    rw [hasContent_of_decoded decoded, none]
    rfl
  | step filled timed count numbers =>
    obtain ⟨texts, decoded, some⟩ := filledFields_eq_ok_iff.mp filled
    rw [hasContent_of_decoded decoded, some]
    rfl

theorem HoldSteps.forall₂ {records : List Record} {steps : List (Float × List Float)}
    (hold : HoldSteps header records steps) :
    List.Forall₂ (fun r step => Holds header r (some step))
      (records.filter Recording.hasContent) steps := by
  induction hold with
  | nil => exact .nil
  | nothing blank _ ih =>
    rw [List.filter_cons_of_neg (by simp [blank.hasContent])]
    exact ih
  | step holds _ ih =>
    rw [List.filter_cons_of_pos (by simp [holds.hasContent])]
    exact .cons holds ih

/-- The errors that a text gives rise to. A wrong count of values has a line. -/
inductive OfText : Error → Prop where
  | missingHeader : OfText .missingHeader
  | brokenText (place : BrokenText) : OfText (.brokenText place)
  | field (line column : Nat) (fault : FieldFault) : OfText (.field line column fault)
  | count (extents : List Nat) (expected actual line : Nat) :
      OfText (.shapeMismatch extents expected actual (some line))

theorem Fault.ofText {r : Record} {cause : Error} (fault : Fault header r cause) :
    OfText cause := by
  cases fault with
  | text broken => exact .brokenText _
  | time filled untimed => exact .field _ _ _
  | count filled timed miscount => exact .count _ _ _ _
  | value filled timed count bad => exact .field _ _ _

theorem readExtents_ofText {line column : Nat} {fields : List String} {cause : Error}
    (fails : Header.readExtents line column fields = .error cause) : OfText cause := by
  induction fields generalizing column with
  | nil => contradiction
  | cons field fields ih =>
    rw [Header.readExtents] at fails
    split at fails
    · obtain rfl := Except.error.inj fails
      exact .field _ _ _
    · cases further : Header.readExtents line (column + 1) fields with
      | ok extents =>
        rw [further] at fails
        contradiction
      | error cause' =>
        rw [further] at fails
        obtain rfl : cause' = cause := Except.error.inj fails
        exact ih further

theorem ofFields_ofText {line : Nat} {fields : List String} {cause : Error}
    (fails : Header.ofFields line fields = .error cause) : OfText cause := by
  cases fields with
  | nil =>
    obtain rfl := Except.error.inj fails
    exact .missingHeader
  | cons kind rest =>
    rw [Header.ofFields] at fails
    cases extents : Header.readExtents line 3 rest.tail with
    | error cause' =>
      simp only [extents, bind, Except.bind] at fails
      obtain rfl : cause' = cause := Except.error.inj fails
      exact readExtents_ofText extents
    | ok es =>
      simp only [extents, bind, Except.bind] at fails
      split at fails
      · obtain rfl := Except.error.inj fails
        exact .field _ _ _
      · contradiction

theorem frameLength_of_ofFields {line : Nat} {fields : List String}
    (done : Header.ofFields line fields = .ok header) :
    header.frameLength = header.channels * header.extents.prod := by
  cases fields with
  | nil => contradiction
  | cons kind rest =>
    rw [Header.ofFields] at done
    cases extents : Header.readExtents line 3 rest.tail with
    | error cause =>
      rw [extents] at done
      contradiction
    | ok es =>
      simp only [extents, bind, Except.bind] at done
      split at done
      · contradiction
      · rename_i found
        obtain rfl := Except.ok.inj done
        exact Header.frameLength_of_isSome (by simpa [Option.isSome_iff_ne_none] using found)

theorem filledFields_ofText {r : Record} {cause : Error} (fails : filledFields r = .error cause) :
    OfText cause := by
  rcases forall_ok_or_firstError Record.decodeField r.fields with
    ⟨texts, decoded⟩ | ⟨before, field, good, broken⟩
  · rw [filledFields_of_decoded decoded] at fails
    contradiction
  · obtain rfl := Except.error.inj ((filledFields_of_broken broken).symm.trans fails)
    exact .brokenText _

inductive Undeclared (first : Record) : Error → Prop where
  | text {cause : Error} (fails : filledFields first = .error cause) : Undeclared first cause
  | fields {fields : List (List Char)} {cause : Error} (filled : filledFields first = .ok fields)
      (fails : Header.ofFields first.line (fields.map String.ofList) = .error cause) :
      Undeclared first cause

theorem Undeclared.ofText {first : Record} {cause : Error} (undeclared : Undeclared first cause) :
    OfText cause := by
  cases undeclared with
  | text fails => exact filledFields_ofText fails
  | fields _ fails => exact ofFields_ofText fails

theorem declares_or_undeclared (first : Record) :
    (∃ header, Declares first header) ∨ ∃ cause, Undeclared first cause := by
  cases filled : filledFields first with
  | error cause => exact .inr ⟨cause, .text filled⟩
  | ok fields =>
    cases declared : Header.ofFields first.line (fields.map String.ofList) with
    | error cause => exact .inr ⟨cause, .fields filled declared⟩
    | ok header => exact .inl ⟨header, fields, filled, declared⟩

theorem Undeclared.read {bytes : List UInt8} {first : Record} {rest : List Record}
    {cause : Error} (undeclared : Undeclared first cause)
    (scanned : Table.scan bytes = first :: rest) : read bytes = .error cause := by
  cases undeclared with
  | text fails =>
    rw [Recording.read, scanned]
    simp only [bind, Except.bind, fails]
  | fields filled fails => exact read_of_undeclared scanned filled fails

/-- Reading fails at this record: the first does not declare a header, or this is the first fault
    behind it. -/
inductive FailsAt (bytes : List UInt8) (r : Record) (cause : Error) : Prop where
  | header {rest : List Record} (scanned : Table.scan bytes = r :: rest)
      (undeclared : Undeclared r cause)
  | step {first : Record} {rest : List Record} {header : Header}
      (scanned : Table.scan bytes = first :: rest) (declares : Declares first header)
      (faulty : FirstFault header rest r cause)

theorem failsAt_of_read {bytes : List UInt8} {cause : Error} (fails : read bytes = .error cause) :
    cause = .missingHeader ∨ ∃ r, FailsAt bytes r cause := by
  cases scanned : Table.scan bytes with
  | nil =>
    rw [read, scanned] at fails
    exact .inl (Except.error.inj fails).symm
  | cons first rest =>
    right
    rcases declares_or_undeclared first with ⟨header, declares⟩ | ⟨cause', undeclared⟩
    · by_cases all : ∀ r ∈ rest, ∃ found, Holds header r found
      · obtain ⟨steps, hold⟩ := holdSteps_of_all all
        obtain ⟨recording, done, _⟩ := read_of_holdSteps scanned declares hold
        rw [done] at fails
        contradiction
      · obtain ⟨r, cause', faulty⟩ := firstFault_of_not_all all
        obtain rfl := Except.error.inj ((read_of_firstFault scanned declares faulty).symm.trans fails)
        exact ⟨r, .step scanned declares faulty⟩
    · obtain rfl := Except.error.inj ((undeclared.read scanned).symm.trans fails)
      exact ⟨first, .header scanned undeclared⟩

theorem read_ofText {bytes : List UInt8} {cause : Error} (fails : read bytes = .error cause) :
    OfText cause := by
  rcases failsAt_of_read fails with rfl | ⟨r, here⟩
  · exact .missingHeader
  · cases here with
    | header _ undeclared => exact undeclared.ofText
    | step _ _ faulty => exact faulty.fault.ofText

theorem parts_of_read {bytes : List UInt8} {recording : Recording}
    (done : read bytes = .ok recording) :
    ∃ first rest header steps, Table.scan bytes = first :: rest ∧ Declares first header ∧
      HoldSteps header rest steps ∧ recording.header = header ∧
      recording.times = steps.map Prod.fst ∧ recording.frames = steps.map Prod.snd := by
  cases scanned : Table.scan bytes with
  | nil =>
    rw [read, scanned] at done
    contradiction
  | cons first rest =>
    rcases declares_or_undeclared first with ⟨header, declares⟩ | ⟨cause, undeclared⟩
    · obtain ⟨steps, parts⟩ := holdSteps_of_read scanned declares done
      exact ⟨first, rest, header, steps, rfl, declares, parts⟩
    · rw [undeclared.read scanned] at done
      contradiction

/-- As many times as frames, and every frame as long as the channels and the extents say. -/
structure Shaped (recording : Recording) : Prop where
  paired : recording.times.length = recording.frames.length
  sized : ∀ frame ∈ recording.frames,
    frame.length = recording.header.channels * recording.header.extents.prod

theorem shaped_of_ofParts {recording : Recording}
    (memory : ∀ frame ∈ frames, frame.length < 2 ^ 63)
    (done : ofParts header times frames = .ok recording) : Shaped recording := by
  obtain ⟨_, _, same⟩ := parts_of_ofParts done
  refine ⟨recording.times_length, fun frame member => ?_⟩
  have length := recording.frames_length frame member
  have bound := memory frame (same ▸ member)
  rw [length] at bound
  rw [length, Header.frameLength_of_lt bound]

theorem shaped_of_read {bytes : List UInt8} {recording : Recording}
    (done : read bytes = .ok recording) : Shaped recording := by
  obtain ⟨_, _, _, _, _, ⟨fields, _, declared⟩, _, rfl, _, _⟩ := parts_of_read done
  refine ⟨recording.times_length, fun frame member => ?_⟩
  rw [recording.frames_length frame member, frameLength_of_ofFields declared]

/-- Whatever makes a recording gives it as many times as frames, and frames of as many values as
    the channels times the extents. What a text holds is never refused for its shape in the end: it
    has a step for each record with a field that is not empty. No frame in memory is beyond the
    bound. -/
theorem recordings_are_shaped :
    (∀ (header : Header) (times : List Float) (frames : List (List Float)) (recording : Recording),
      (∀ frame ∈ frames, frame.length < 2 ^ 63) →
      (ofParts header times frames = .ok recording → recording.header = header ∧
        recording.times = times ∧ recording.frames = frames ∧ Shaped recording) ∧
      (ofFrames header frames = .ok recording → recording.header = header ∧
        recording.times = (List.range frames.length).map Float.ofNat ∧
        recording.frames = frames ∧ Shaped recording)) ∧
    (∀ (bytes : List UInt8) (recording : Recording), read bytes = .ok recording →
      Shaped recording ∧ ∃ first rest, Table.scan bytes = first :: rest ∧
        recording.steps = (rest.filter hasContent).length) ∧
    (∀ (bytes : List UInt8) (cause : Error), read bytes = .error cause →
      (∀ times frames, cause ≠ .unmatchedTimes times frames) ∧
      ∀ extents expected actual, cause ≠ .shapeMismatch extents expected actual none) ∧
    (∀ (header : Header) (records : List Record) (steps : List (Float × List Float)),
      readSteps header records = .ok steps →
      ∃ recording, ofParts header (steps.map Prod.fst) (steps.map Prod.snd) = .ok recording) := by
  refine ⟨fun header times frames recording memory => ⟨fun done => ?_, fun done => ?_⟩,
    fun bytes recording done => ⟨shaped_of_read done, ?_⟩, fun bytes cause fails => ?_,
    fun header records steps done => ?_⟩
  · obtain ⟨head, same, same'⟩ := parts_of_ofParts done
    exact ⟨head, same, same', shaped_of_ofParts memory done⟩
  · obtain ⟨head, same, same'⟩ := parts_of_ofParts done
    exact ⟨head, same, same', shaped_of_ofParts memory done⟩
  · obtain ⟨first, rest, _, steps, scanned, _, hold, _, _, frames⟩ := parts_of_read done
    refine ⟨first, rest, scanned, ?_⟩
    rw [Recording.steps, frames, List.length_map, ← hold.forall₂.length_eq]
  · cases read_ofText fails with
    | missingHeader => simp
    | brokenText => simp
    | field => simp
    | count => simp
  · by_cases all : ∀ r ∈ records, ∃ found, Holds header r found
    · obtain ⟨steps', hold⟩ := holdSteps_of_all all
      obtain rfl := Except.ok.inj (done.symm.trans (readSteps_of_holdSteps hold))
      obtain ⟨recording, made, _⟩ := ofParts_of_holdSteps hold
      exact ⟨recording, made⟩
    · obtain ⟨r, cause, faulty⟩ := firstFault_of_not_all all
      rw [readSteps_of_firstFault faulty] at done
      contradiction

theorem pairs_shaped :
    (∃ recording, ofParts pairs [1] [[1, 2]] = .ok recording ∧ Shaped recording) ∧
    (∃ recording, ofFrames pairs [[1, 2]] = .ok recording ∧ recording.times = [0] ∧
      Shaped recording) ∧
    (∃ recording, read (pairsText ++ pairsMore) = .ok recording ∧ Shaped recording ∧
      recording.steps = 2) ∧
    (∀ extents expected actual,
      read pairsFlawed ≠ .error (.shapeMismatch extents expected actual none)) ∧
    ∃ recording, ofParts pairs [1] [[1, 2]] = .ok recording := by
  obtain ⟨assembled, fromText, failing, final⟩ := recordings_are_shaped
  have short : ∀ frame ∈ [[(1 : Float), 2]], frame.length < 2 ^ 63 := by decide
  have fits : ∀ frame ∈ [[(1 : Float), 2]], frame.length = pairs.frameLength := by decide
  refine ⟨?_, ?_, ?_, ?_, ?_⟩
  · have paired : [(1 : Float)].length = [[(1 : Float), 2]].length := rfl
    obtain ⟨recording, made, _⟩ := ofParts_of_fit paired fits
    exact ⟨recording, made, ((assembled pairs [1] _ recording short).1 made).2.2.2⟩
  · have paired : [(0 : Float)].length = [[(1 : Float), 2]].length := rfl
    obtain ⟨recording, made, _⟩ := ofParts_of_fit paired fits
    obtain ⟨_, times, _, shaped⟩ := (assembled pairs [] _ recording short).2 made
    exact ⟨recording, made, times, shaped⟩
  · cases done : read (pairsText ++ pairsMore) with
    | error cause =>
      have fine : (read (pairsText ++ pairsMore)).isOk = true := by decide +kernel
      rw [done] at fine
      contradiction
    | ok recording =>
      obtain ⟨shaped, first, rest, scanned, count⟩ := fromText _ recording done
      refine ⟨recording, rfl, shaped, count.trans ?_⟩
      have records : (((Table.scan (pairsText ++ pairsMore)).drop 1).filter hasContent).length = 2 := by
        decide +kernel
      rwa [scanned] at records
  · intro extents expected actual fails
    exact (failing pairsFlawed _ fails).2 extents expected actual rfl
  · have done : readSteps pairs [recordOf 1 2 13 ["1ms", "1", "2"]] = .ok [(1, [1, 2])] := by
      decide +kernel
    exact final pairs _ _ done

end FieldPlot.Recording
