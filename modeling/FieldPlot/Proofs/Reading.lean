import FieldPlot.Proofs.Beginnings
import FieldPlot.Proofs.Length
import FieldPlot.Proofs.Steps

/-!
Reading a recording. The records behind the header decide from the first to the last, so the first
fault counts whatever follows it, and a text that ends with a line may be read before the rest. What
the records hold always fits together: a recording has as many times as frames, and frames of the
length that its header declares.
-/
namespace FieldPlot.Recording

open Table (Record)

variable {header : Header} {times : List Float} {frames : List (List Float)}

theorem ofParts_of_fit (paired : times.length = frames.length)
    (fits : ∀ frame ∈ frames, frame.length = header.frameLength) :
    ∃ recording, ofParts header times frames = .ok recording ∧ recording.header = header ∧
      recording.times = times ∧ recording.frames = frames := by
  unfold ofParts
  rw [dif_pos paired]
  split
  · exact ⟨_, rfl, rfl, rfl, rfl⟩
  · rename_i frame found
    have member := List.mem_of_find?_eq_some found
    have misfit := List.find?_some found
    simp [fits frame member] at misfit

theorem parts_of_ofParts {recording : Recording} (done : ofParts header times frames = .ok recording) :
    recording.header = header ∧ recording.times = times ∧ recording.frames = frames := by
  unfold ofParts at done
  split at done
  · split at done
    · obtain rfl := Except.ok.inj done
      exact ⟨rfl, rfl, rfl⟩
    · contradiction
  · contradiction

theorem ofParts_of_holdSteps {records : List Record} {steps : List (Float × List Float)}
    (hold : HoldSteps header records steps) :
    ∃ recording, ofParts header (steps.map Prod.fst) (steps.map Prod.snd) = .ok recording ∧
      recording.header = header ∧ recording.times = steps.map Prod.fst ∧
      recording.frames = steps.map Prod.snd :=
  ofParts_of_fit (by rw [List.length_map, List.length_map]) hold.frames_length

def Declares (first : Record) (header : Header) : Prop :=
  ∃ fields, filledFields first = .ok fields ∧
    Header.ofFields first.line (fields.map String.ofList) = .ok header

section Text

variable {bytes : List UInt8} {first : Record} {rest : List Record}

theorem read_of_declares (scanned : Table.scan bytes = first :: rest)
    (declares : Declares first header) :
    read bytes = (readSteps header rest).bind fun steps =>
      ofParts header (steps.map Prod.fst) (steps.map Prod.snd) := by
  obtain ⟨fields, filled, declared⟩ := declares
  rw [read, scanned]
  simp only [bind, Except.bind, filled, declared]

theorem read_of_undeclared {fields : List (List Char)} {cause : Error}
    (scanned : Table.scan bytes = first :: rest) (filled : filledFields first = .ok fields)
    (fails : Header.ofFields first.line (fields.map String.ofList) = .error cause) :
    read bytes = .error cause := by
  rw [read, scanned]
  simp only [bind, Except.bind, filled, fails]

theorem read_of_holdSteps {steps : List (Float × List Float)}
    (scanned : Table.scan bytes = first :: rest) (declares : Declares first header)
    (hold : HoldSteps header rest steps) :
    ∃ recording, read bytes = .ok recording ∧ recording.header = header ∧
      recording.times = steps.map Prod.fst ∧ recording.frames = steps.map Prod.snd := by
  obtain ⟨recording, made, parts⟩ := ofParts_of_holdSteps hold
  refine ⟨recording, ?_, parts⟩
  rw [read_of_declares scanned declares, readSteps_of_holdSteps hold]
  exact made

theorem read_of_firstFault {r : Record} {cause : Error}
    (scanned : Table.scan bytes = first :: rest) (declares : Declares first header)
    (faulty : FirstFault header rest r cause) : read bytes = .error cause := by
  rw [read_of_declares scanned declares, readSteps_of_firstFault faulty]
  rfl

theorem holdSteps_of_read {recording : Recording} (scanned : Table.scan bytes = first :: rest)
    (declares : Declares first header) (done : read bytes = .ok recording) :
    ∃ steps, HoldSteps header rest steps ∧ recording.header = header ∧
      recording.times = steps.map Prod.fst ∧ recording.frames = steps.map Prod.snd := by
  by_cases all : ∀ r ∈ rest, ∃ found, Holds header r found
  · obtain ⟨steps, hold⟩ := holdSteps_of_all all
    obtain ⟨recording', done', parts⟩ := read_of_holdSteps scanned declares hold
    obtain rfl : recording = recording' := Except.ok.inj (done.symm.trans done')
    exact ⟨steps, hold, parts⟩
  · obtain ⟨r, cause, faulty⟩ := firstFault_of_not_all all
    rw [read_of_firstFault scanned declares faulty] at done
    contradiction

theorem FirstFault.append {records : List Record} {r : Record} {cause : Error}
    (faulty : FirstFault header records r cause) (more : List Record) :
    FirstFault header (records ++ more) r cause := by
  obtain ⟨⟨before, after, rfl, fine⟩, fault⟩ := faulty
  exact ⟨⟨before, after ++ more, by simp, fine⟩, fault⟩

/-- Records behind a header are read from the left. Where all are without fault, the recording has
    their steps; and when the text ends with a line, steps that follow are added. Otherwise the first
    fault is the result, whatever follows its record. -/
theorem first_fault_decides (scanned : Table.scan bytes = first :: rest)
    (declares : Declares first header) :
    ((∀ r ∈ rest, ∃ found, Holds header r found) →
      ∃ steps recording, HoldSteps header rest steps ∧ read bytes = .ok recording ∧
        recording.header = header ∧ recording.times = steps.map Prod.fst ∧
        recording.frames = steps.map Prod.snd) ∧
    (∀ recording, read bytes = .ok recording → Table.EndsLine bytes →
      ∀ (more : List UInt8) (added : List (Float × List Float)),
        HoldSteps header (Table.further more) added →
        ∃ whole, read (bytes ++ more) = .ok whole ∧ whole.header = recording.header ∧
          whole.times = recording.times ++ added.map Prod.fst ∧
          whole.frames = recording.frames ++ added.map Prod.snd) ∧
    ((¬ ∀ r ∈ rest, ∃ found, Holds header r found) →
      ∃ r cause, FirstFault header rest r cause) ∧
    (∀ r cause, FirstFault header rest r cause → read bytes = .error cause ∧
      ∀ tail, Table.Ends bytes tail → read (bytes ++ tail) = .error cause) ∧
    ∀ before r after, rest = before ++ r :: after →
      ∃ front, Table.Begins bytes front (first :: before) r := by
  refine ⟨fun all => ?_, fun recording done line more added further => ?_, firstFault_of_not_all,
    fun r cause faulty => ⟨read_of_firstFault scanned declares faulty, fun tail ends => ?_⟩,
    fun before r after split => Table.exists_begins (split ▸ scanned)⟩
  · obtain ⟨steps, hold⟩ := holdSteps_of_all all
    obtain ⟨recording, done, parts⟩ := read_of_holdSteps scanned declares hold
    exact ⟨steps, recording, hold, done, parts⟩
  · obtain ⟨steps, hold, head, times, frames⟩ := holdSteps_of_read scanned declares done
    obtain ⟨records, longer, same⟩ := Table.scan_append_of_endsLine line more
    rw [scanned, List.cons_append] at longer
    obtain ⟨whole, done', head', times', frames'⟩ :=
      read_of_holdSteps longer declares (hold.append (further.congr same.symm))
    refine ⟨whole, done', head'.trans head.symm, ?_, ?_⟩
    · rw [times', times, List.map_append]
    · rw [frames', frames, List.map_append]
  · obtain ⟨records, longer⟩ := Table.scan_append_of_ends ends
    rw [scanned, List.cons_append] at longer
    exact read_of_firstFault longer declares (faulty.append records)

end Text

def pairs : Header :=
  ⟨"Mat", "CV_64F", [2]⟩

def pairsText : List UInt8 :=
  Text.Utf8.encode "Mat,CV_64F,2\n1ms,1,2\n".toList

def pairsMore : List UInt8 :=
  Text.Utf8.encode " ,\n2s,3,4".toList

def pairsFlawed : List UInt8 :=
  Text.Utf8.encode "Mat,CV_64F,2\n1ms,1,x\n".toList

def recordOf (number line byte : Nat) (fields : List String) : Record :=
  ⟨number, line, byte, fields.map fun field => Text.Utf8.encode field.toList⟩

theorem pairs_declared : Declares (recordOf 0 1 0 ["Mat", "CV_64F", "2"]) pairs :=
  ⟨["Mat".toList, "CV_64F".toList, "2".toList], by decide +kernel, by decide +kernel⟩

theorem first_fault_of_pairs :
    (∃ recording whole, read pairsText = .ok recording ∧ recording.times = [1] ∧
      recording.frames = [[1, 2]] ∧ read (pairsText ++ pairsMore) = .ok whole ∧
      whole.times = [1, 2000] ∧ whole.frames = [[1, 2], [3, 4]]) ∧
    ∀ tail, read (pairsFlawed ++ tail) = .error (.field 2 3 (.badValue "x" .malformed)) := by
  constructor
  · obtain ⟨wellFormed, continued, _, _⟩ := first_fault_decides
      (by decide +kernel : Table.scan pairsText =
        recordOf 0 1 0 ["Mat", "CV_64F", "2"] :: [recordOf 1 2 13 ["1ms", "1", "2"]])
      pairs_declared
    have step : Holds pairs (recordOf 1 2 13 ["1ms", "1", "2"]) (some (1, [1, 2])) :=
      readStep_eq_ok_iff.mp (by decide +kernel)
    have blank : Holds pairs (recordOf 0 1 0 [" ", ""]) none :=
      readStep_eq_ok_iff.mp (by decide +kernel)
    have later : Holds pairs (recordOf 1 2 3 ["2s", "3", "4"]) (some (2000, [3, 4])) :=
      readStep_eq_ok_iff.mp (by decide +kernel)
    have more : HoldSteps pairs (Table.further pairsMore) [(2000, [3, 4])] := by
      have records : (Table.further pairsMore).map Record.fields =
          [recordOf 0 1 0 [" ", ""], recordOf 1 2 3 ["2s", "3", "4"]].map Record.fields := by
        decide +kernel
      exact (HoldSteps.nothing blank (.step later .nil)).congr records.symm
    obtain ⟨steps, recording, hold, done, _, times, frames⟩ :=
      wellFormed (List.forall_mem_singleton.mpr ⟨_, step⟩)
    have same := Except.ok.inj ((readSteps_of_holdSteps hold).symm.trans
      (readSteps_of_holdSteps (.step step .nil)))
    rw [same] at times frames
    obtain ⟨whole, done', _, times', frames'⟩ := continued recording done
      ⟨Text.Utf8.encode "Mat,CV_64F,2\n1ms,1,2".toList, 10, by decide +kernel, rfl,
        by decide +kernel⟩ pairsMore _ more
    rw [times] at times'
    rw [frames] at frames'
    exact ⟨recording, whole, done, times, frames, done', times', frames'⟩
  · obtain ⟨_, _, _, faulty, _⟩ := first_fault_decides
      (by decide +kernel : Table.scan pairsFlawed =
        recordOf 0 1 0 ["Mat", "CV_64F", "2"] :: [recordOf 1 2 13 ["1ms", "1", "x"]])
      pairs_declared
    have fault : Fault pairs (recordOf 1 2 13 ["1ms", "1", "x"])
        (.field 2 3 (.badValue "x" .malformed)) :=
      readStep_eq_error_iff.mp (by decide +kernel)
    intro tail
    refine (faulty _ _ ⟨⟨[], [], rfl, by simp⟩, fault⟩).2 tail (.inr (.inl ?_))
    exact ⟨Text.Utf8.encode "Mat,CV_64F,2\n1ms,1,x".toList, 10, by decide +kernel, rfl,
      by decide +kernel⟩

end FieldPlot.Recording
