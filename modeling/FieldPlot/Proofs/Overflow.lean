import FieldPlot.Proofs.Numerals
import FieldPlot.Proofs.Places
import Mathlib.Algebra.BigOperators.Ring.List
import Mathlib.Data.List.TakeWhile

/-!
Lengths out of range. The values of a frame are counted from the left, so a product out of range on the
way refuses a header unless an extent zero stands in front of it: only the extents before the first zero
count (`frameLength?_eq_some_iff_leading`). Without an extent zero a header is refused just where its
length is out of range, and so whatever the order of its extents. All lengths of a header that is not
refused are exact.
-/
namespace FieldPlot

namespace Word

/-- The factors in front of the first zero; behind it every product is zero. -/
def leading (factors : List Nat) : List Nat :=
  factors.takeWhile (· ≠ 0)

theorem leading_of_nonzero {factors : List Nat} (nonzero : 0 ∉ factors) :
    leading factors = factors := by
  rw [leading, List.takeWhile_eq_self_iff]
  intro e member
  have : e ≠ 0 := by
    rintro rfl
    exact nonzero member
  simpa using this

theorem leading_cons_of_ne {e : Nat} (factors : List Nat) (nonzero : e ≠ 0) :
    leading (e :: factors) = e :: leading factors :=
  List.takeWhile_cons_of_pos (by simpa using nonzero)

theorem leading_cons_zero (factors : List Nat) : leading (0 :: factors) = [] :=
  List.takeWhile_cons_of_neg (by simp)

theorem prod_leading_pos (factors : List Nat) : 0 < (leading factors).prod := by
  rw [List.prod_pos_iff_forall_pos_nat]
  intro e member
  have nonzero := List.mem_takeWhile_imp member
  exact Nat.pos_of_ne_zero (by simpa using nonzero)

theorem prod_le_prod_leading (factors : List Nat) : factors.prod ≤ (leading factors).prod := by
  by_cases zero : 0 ∈ factors
  · rw [List.prod_eq_zero zero]
    exact Nat.zero_le _
  · rw [leading_of_nonzero zero]

/-- A product is found just when the factors in front of the first zero do not leave the range. -/
theorem product?_eq_some_iff_leading {start : Nat} (factors : List Nat) (inside : start ≤ limit)
    (n : Nat) : product? start factors = some n ↔
      n = start * factors.prod ∧ start * (leading factors).prod ≤ limit := by
  induction factors generalizing start with
  | nil => simp [product?, leading, inside, eq_comm]
  | cons e factors ih =>
    rw [product?_cons, List.prod_cons, ← Nat.mul_assoc]
    by_cases zero : e = 0
    · subst zero
      have cleared : mul? start 0 = some 0 := if_pos (Nat.zero_le _)
      rw [cleared, Option.bind_some, ih (Nat.zero_le _), leading_cons_zero]
      simp [inside]
    · rw [leading_cons_of_ne factors zero, List.prod_cons, ← Nat.mul_assoc]
      by_cases fits : start * e ≤ limit
      · have here : mul? start e = some (start * e) := if_pos fits
        rw [here, Option.bind_some, ih fits]
      · have here : mul? start e = none := if_neg fits
        have more := Nat.le_mul_of_pos_right (start * e) (prod_leading_pos factors)
        rw [here, Option.bind_none]
        refine iff_of_false (by simp) fun found => fits ?_
        omega

end Word

namespace Header

theorem channels_le (h : Header) : h.channels ≤ Word.limit := by
  rw [channels]
  split
  · rename_i n found
    obtain ⟨digits, _, done⟩ := Option.map_eq_some_iff.mp found
    exact (Text.Numeral.read_eq_ok_iff.mp done).2
  · decide

theorem frameLength?_eq_some_iff_leading (h : Header) (n : Nat) :
    h.frameLength? = some n ↔
      n = h.channels * h.extents.prod ∧ h.channels * (Word.leading h.extents).prod ≤ Word.limit :=
  Word.product?_eq_some_iff_leading h.extents h.channels_le n

theorem isSome_frameLength?_iff (h : Header) :
    h.frameLength?.isSome ↔ h.channels * (Word.leading h.extents).prod ≤ Word.limit := by
  simp only [Option.isSome_iff_exists, frameLength?_eq_some_iff_leading, exists_eq_left]

theorem isSome_frameLength?_of_nonzero {h : Header} (nonzero : 0 ∉ h.extents) :
    h.frameLength?.isSome ↔ h.channels * h.extents.prod ≤ Word.limit := by
  rw [isSome_frameLength?_iff, Word.leading_of_nonzero nonzero]

def ReadAs : List String → List Nat → Prop :=
  List.Forall₂ fun field e => Text.Numeral.read 10 Word.limit field.toList = .ok e

def Accepted (line : Nat) (kind elementType : String) (fields : List String) : Prop :=
  ∃ header, ofFields line (kind :: elementType :: fields) = .ok header

section Fields

variable {line : Nat} {kind elementType : String} {fields others : List String}

theorem accepted_iff : Accepted line kind elementType fields ↔
    ∃ extents, ReadAs fields extents ∧ (frameLength? ⟨kind, elementType, extents⟩).isSome := by
  unfold Accepted
  rw [Recording.ofFields_cons, List.tail_cons, List.headD_cons]
  constructor
  · rintro ⟨header, declared⟩
    rcases Recording.readExtents_cases line 3 fields with
      ⟨extents, read, all⟩ | ⟨before, field, cause, _, read⟩
    · rw [read, Except.bind] at declared
      split at declared
      · contradiction
      · rename_i found
        exact ⟨extents, all, by simpa [Option.isSome_iff_ne_none] using found⟩
    · rw [read] at declared
      contradiction
  · rintro ⟨extents, all, found⟩
    rw [Recording.readExtents_of_ok line 3 all]
    refine ⟨⟨kind, elementType, extents⟩, if_neg ?_⟩
    rw [Option.isNone_iff_eq_none, ← ne_eq, ← Option.isSome_iff_ne_none]
    exact found

theorem Accepted.perm (perm : fields.Perm others)
    (nonzero : ∀ field ∈ fields, Text.Numeral.read 10 Word.limit field.toList ≠ .ok 0)
    (accepted : Accepted line kind elementType fields) : Accepted line kind elementType others := by
  obtain ⟨extents, all, found⟩ := accepted_iff.mp accepted
  obtain ⟨turned, all', perm'⟩ := List.perm_comp_forall₂ perm.symm all
  have apart : 0 ∉ extents := by
    intro zero
    obtain ⟨k, there⟩ := List.getElem?_of_mem zero
    obtain ⟨field, here, reads⟩ := Recording.exists_of_forall₂ all there
    exact nonzero field (List.mem_of_getElem? here) reads
  have apart' : 0 ∉ turned := mt perm'.mem_iff.mp apart
  refine accepted_iff.mpr ⟨turned, all', ?_⟩
  rw [isSome_frameLength?_of_nonzero apart] at found
  rw [isSome_frameLength?_of_nonzero apart', perm'.prod_eq]
  exact found

theorem accepted_of_zero {zero : String}
    (none : Text.Numeral.read 10 Word.limit zero.toList = .ok 0)
    (extents : ∀ field ∈ fields, ∃ e, Text.Numeral.read 10 Word.limit field.toList = .ok e) :
    Accepted line kind elementType (zero :: fields) := by
  obtain ⟨found, all⟩ : ∃ found, ReadAs fields found := by
    rcases forall_ok_or_firstError
      (fun field : String => Text.Numeral.read 10 Word.limit field.toList) fields with
      done | ⟨before, field, cause, ⟨⟨after, rfl⟩, _, fails⟩⟩
    · exact done
    · obtain ⟨e, reads⟩ := extents field (by simp)
      rw [reads] at fails
      contradiction
  refine accepted_iff.mpr ⟨0 :: found, .cons none all, ?_⟩
  rw [isSome_frameLength?_iff, Word.leading_cons_zero, List.prod_nil, Nat.mul_one]
  exact channels_le _

end Fields

/-- A header is refused for its length just when its channels and the extents before the first zero
    are together out of range. Without an extent zero its length decides, and the order of the extents
    does not; and with an extent zero in front no header is refused for its length. -/
theorem overflow_is_exact_without_zeros (h : Header) (line : Nat) :
    (∀ n, h.frameLength? = some n ↔
      n = h.channels * h.extents.prod ∧
        h.channels * (Word.leading h.extents).prod ≤ Word.limit) ∧
    (0 ∉ h.extents → h.channels * h.extents.prod ≤ Word.limit →
      h.frameLength? = some (h.channels * h.extents.prod)) ∧
    (∀ fields others : List String, fields.Perm others →
      (∀ field ∈ fields, Text.Numeral.read 10 Word.limit field.toList ≠ .ok 0) →
      (Accepted line h.kind h.elementType fields ↔ Accepted line h.kind h.elementType others)) ∧
    ∀ (zero : String) (fields : List String), Text.Numeral.read 10 Word.limit zero.toList = .ok 0 →
      (∀ field ∈ fields, ∃ e, Text.Numeral.read 10 Word.limit field.toList = .ok e) →
      Accepted line h.kind h.elementType (zero :: fields) := by
  refine ⟨h.frameLength?_eq_some_iff_leading, fun nonzero fits => ?_,
    fun fields others perm nonzero => ⟨Accepted.perm perm nonzero, ?_⟩, fun zero fields => accepted_of_zero⟩
  · rw [frameLength?_eq_some_iff_leading, Word.leading_of_nonzero nonzero]
    exact ⟨rfl, fits⟩
  · exact Accepted.perm perm.symm fun field member => nonzero field (perm.mem_iff.mpr member)

theorem overflow_of_large_extents :
    frameLength? ⟨"Mat", "CV_8UC3", [4, 2]⟩ = some 24 ∧
    (Accepted 1 "Mat" "CV_64F" ["4294967296", "+4294967295"] ↔
      Accepted 1 "Mat" "CV_64F" ["+4294967295", "4294967296"]) ∧
    Accepted 1 "Mat" "CV_64F" ["00", "9223372036854775808", "4"] := by
  obtain ⟨_, inRange, _⟩ := overflow_is_exact_without_zeros ⟨"Mat", "CV_8UC3", [4, 2]⟩ 1
  obtain ⟨_, _, ordered, zeros⟩ := overflow_is_exact_without_zeros ⟨"Mat", "CV_64F", []⟩ 1
  refine ⟨inRange (by decide) (by decide +kernel), ordered _ _ (.swap _ _ _) ?_,
    zeros "00" _ (by decide) ?_⟩
  · exact List.forall_mem_cons.mpr ⟨by decide, List.forall_mem_singleton.mpr (by decide)⟩
  · exact List.forall_mem_cons.mpr ⟨⟨9223372036854775808, by decide⟩,
      List.forall_mem_singleton.mpr ⟨4, by decide⟩⟩

/-- Extents that are too large together refuse a header although a later zero leaves no values, and the
    same extents in another order are accepted. -/
theorem order_of_extents_decides :
    (⟨"Mat", "CV_64F", [9223372036854775808, 4, 0]⟩ : Header).channels *
      [9223372036854775808, 4, 0].prod ≤ Word.limit ∧
    frameLength? ⟨"Mat", "CV_64F", [9223372036854775808, 4, 0]⟩ = none ∧
    ["9223372036854775808", "4", "0"].Perm ["0", "9223372036854775808", "4"] ∧
    ¬ Accepted 1 "Mat" "CV_64F" ["9223372036854775808", "4", "0"] ∧
    Accepted 1 "Mat" "CV_64F" ["0", "9223372036854775808", "4"] := by
  refine ⟨by decide +kernel, by decide +kernel, by decide, ?_, ?_⟩
  · rintro ⟨header, declared⟩
    have fails : (ofFields 1 ["Mat", "CV_64F", "9223372036854775808", "4", "0"]).isOk = false := by
      decide +kernel
    rw [declared] at fails
    contradiction
  · exact accepted_of_zero (by decide) (List.forall_mem_cons.mpr
      ⟨⟨9223372036854775808, by decide⟩, List.forall_mem_singleton.mpr ⟨4, by decide⟩⟩)

section Exact

variable {h : Header} {p : Nat} (found : h.frameLength? = some p)
include found

theorem length_le_of_some : p ≤ Word.limit := by
  obtain ⟨rfl, inside⟩ := (h.frameLength?_eq_some_iff_leading p).mp found
  exact (Nat.mul_le_mul_left _ (Word.prod_le_prod_leading _)).trans inside

theorem elementCount_of_some : h.elementCount = h.extents.prod := by
  have bound := length_le_of_some found
  have value := ((h.frameLength?_eq_some_iff_leading p).mp found).1
  have part := Nat.le_mul_of_pos_left h.extents.prod h.channels_pos
  rw [elementCount_eq]
  omega

end Exact

theorem elementCount_perm {h : Header} {extents : List Nat} (perm : extents.Perm h.extents) :
    ({ h with extents := extents } : Header).elementCount = min h.extents.prod Word.limit := by
  rw [elementCount_eq, perm.prod_eq]

theorem checkLength_of_multiple {h : Header} {length : Nat}
    (multiple : length = h.channels * h.elementCount) :
    h.checkLength length = if h.channels = 1 ∨ h.elementCount = 0 then .ok ()
      else .error (.shapeMismatch h.extents h.elementCount length none) := by
  have same : length = h.elementCount ↔ h.channels = 1 ∨ h.elementCount = 0 := by
    rw [multiple, mul_left_eq_self₀]
  rw [checkLength]
  simp only [same]

/-- The lengths of a header that is not refused are exact: none is clamped. So what is accepted as a
    frame of a recording is an array of its own where there is one channel, and never where there are
    more and no extent is zero. -/
theorem lengths_are_exact (h : Header) :
    (∀ extents : List Nat, extents.Perm h.extents →
      ({ h with extents := extents } : Header).elementCount = min h.extents.prod Word.limit) ∧
    ∀ p, h.frameLength? = some p →
      p = h.frameLength ∧ p = h.channels * h.elementCount ∧ h.elementCount = h.extents.prod ∧
      p ≤ Word.limit ∧
      ∀ (times : List Float) (frames : List (List Float)) (recording : Recording),
        Recording.ofParts h times frames = .ok recording →
        (h.channels = 1 → ∀ frame ∈ frames, h.checkLength frame.length = .ok ()) ∧
        (2 ≤ h.channels → 0 ∉ h.extents → ∀ frame ∈ frames, h.checkLength frame.length =
          .error (.shapeMismatch h.extents h.elementCount frame.length none)) := by
  refine ⟨fun extents => elementCount_perm, fun p found => ?_⟩
  have count := elementCount_of_some found
  have length : p = h.frameLength := by rw [frameLength, found, Option.getD_some]
  have value : p = h.channels * h.elementCount := by
    rw [count, ← frameLength_of_some found]
    exact length
  refine ⟨length, value, count, length_le_of_some found, fun times frames recording done => ?_⟩
  obtain ⟨rfl, _, rfl⟩ := Recording.parts_of_ofParts done
  have multiple : ∀ frame ∈ recording.frames,
      frame.length = recording.header.channels * recording.header.elementCount :=
    fun frame member => (recording.frames_length frame member).trans (length.symm.trans value)
  constructor
  · intro one frame member
    rw [checkLength_of_multiple (multiple frame member), if_pos (Or.inl one)]
  · intro several nonzero frame member
    have filled : recording.header.elementCount ≠ 0 := by
      rw [count]
      exact List.prod_ne_zero nonzero
    rw [checkLength_of_multiple (multiple frame member), if_neg (by omega)]

theorem lengths_of_channels :
    elementCount ⟨"Mat", "CV_64F", [9223372036854775808, 4, 0]⟩ = 0 ∧
    (∃ recording, Recording.ofParts Recording.pairs [1] [[1, 2]] = .ok recording ∧
      Recording.pairs.checkLength 2 = .ok ()) ∧
    ∃ recording, Recording.ofParts ⟨"Mat", "CV_8UC2", [1]⟩ [1] [[1, 2]] = .ok recording ∧
      checkLength ⟨"Mat", "CV_8UC2", [1]⟩ 2 = .error (.shapeMismatch [1] 1 2 none) := by
  have paired : [(1 : Float)].length = [[(1 : Float), 2]].length := rfl
  have single : ∀ frame ∈ [[(1 : Float), 2]], frame.length = Recording.pairs.frameLength := by decide
  have double : ∀ frame ∈ [[(1 : Float), 2]],
      frame.length = frameLength ⟨"Mat", "CV_8UC2", [1]⟩ := by decide
  refine ⟨?_, ?_, ?_⟩
  · exact (lengths_are_exact ⟨"Mat", "CV_64F", [0, 9223372036854775808, 4]⟩).1
      [9223372036854775808, 4, 0] (by decide)
  · obtain ⟨recording, made, _⟩ := Recording.ofParts_of_fit paired single
    obtain ⟨_, _, _, _, whole⟩ := (lengths_are_exact Recording.pairs).2 2 (by decide)
    exact ⟨recording, made, (whole _ _ _ made).1 (by decide) _ (List.mem_singleton_self _)⟩
  · obtain ⟨recording, made, _⟩ := Recording.ofParts_of_fit paired double
    obtain ⟨_, _, _, _, whole⟩ := (lengths_are_exact ⟨"Mat", "CV_8UC2", [1]⟩).2 2 (by decide)
    exact ⟨recording, made,
      (whole _ _ _ made).2 (by decide) (by decide) _ (List.mem_singleton_self _)⟩

end Header
end FieldPlot
