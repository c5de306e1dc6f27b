import FieldPlot.Export
import FieldPlot.Proofs.Cutting

/-!
Paths by their parts. A name behind a folder is the last part of its path whatever the name is, and
a path that does not end in a slash ends in its last name. The names of exports are such names, one
for each number.
-/
namespace FieldPlot

namespace Path

/-- A part that is the name of a file or folder: it neither stays where it is nor goes back. -/
structure IsName (name : String) : Prop where
  filled : name ≠ ""
  notHere : name ≠ "."
  notBack : name ≠ ".."

def startOf : List String → Place × List String
  | "" :: rest => (["/"], rest)
  | all => ([], all)

theorem start_eq (path : String) : start path = startOf (parts path) := rfl

theorem startOf_of_filled {first : String} (rest : List String) (filled : first ≠ "") :
    startOf (first :: rest) = ([], first :: rest) := by
  unfold startOf
  split
  · rename_i same
    exact absurd (List.cons.inj same).1 filled
  · rfl

theorem startOf_append {before : List String} {name : String} (filled : name ≠ "") :
    startOf (before ++ [name]) = ((startOf before).1, (startOf before).2 ++ [name]) := by
  cases before with
  | nil => exact startOf_of_filled [] filled
  | cons first before =>
    by_cases root : first = ""
    · subst root
      rfl
    · rw [List.cons_append, startOf_of_filled _ root, startOf_of_filled _ root]
      rfl

theorem last?_append {before : List String} {name : String} (filled : name ≠ "") :
    last? (before ++ [name]) = some (before, name) := by
  simp [last?, filled]

theorem whole_of_mem_parts {path part : String} (member : part ∈ parts path) :
    '/' ∉ part.toList := by
  obtain ⟨letters, cut, rfl⟩ := List.mem_map.mp member
  rw [String.toList_ofList]
  exact Text.not_mem_of_mem_cutAt cut

theorem parts_of_whole {name : String} (whole : '/' ∉ name.toList) : parts name = [name] := by
  rw [parts, Text.cutAt_of_not_mem whole]
  simp

theorem parts_append_slash (front : List Char) (name : String) (whole : '/' ∉ name.toList) :
    (Text.cutAt '/' (front ++ '/' :: name.toList)).map String.ofList =
      (Text.cutAt '/' front).map String.ofList ++ [name] := by
  rw [Text.cutAt_append_separator, List.map_append]
  exact congrArg _ (parts_of_whole whole)

theorem parts_join (folder : String) : ∃ before, ∀ name : String, '/' ∉ name.toList →
    parts (join folder name) = before ++ [name] := by
  by_cases empty : folder = ""
  · refine ⟨[], fun name whole => ?_⟩
    rw [join, if_pos empty, parts_of_whole whole]
    rfl
  by_cases slash : folder.toList.getLast? = some '/'
  · obtain ⟨front, ends⟩ := List.getLast?_eq_some_iff.mp slash
    refine ⟨(Text.cutAt '/' front).map String.ofList, fun name whole => ?_⟩
    rw [join, if_neg empty, if_pos slash, parts, String.toList_append, ends, List.append_assoc]
    exact parts_append_slash front name whole
  · refine ⟨parts folder, fun name whole => ?_⟩
    rw [join, if_neg empty, if_neg slash, parts, String.toList_append, String.toList_append,
      List.append_assoc]
    exact parts_append_slash folder.toList name whole

/-- A path without a slash at its end ends in a name, which may be one of a place on the way. -/
theorem parts_of_not_endsInSlash {path : String} (filled : path ≠ "")
    (ends : endsInSlash path = false) :
    ∃ before name, parts path = before ++ [name] ∧ name ≠ "" := by
  by_cases whole : '/' ∈ path.toList
  · -- The name is what stands behind the last slash.
    obtain ⟨back, front, shape, last⟩ :=
      List.eq_append_cons_of_mem (List.mem_reverse.mpr whole)
    have shape : path.toList = front.reverse ++ '/' :: back.reverse := by
      rw [← List.reverse_reverse path.toList, shape]
      simp
    refine ⟨(Text.cutAt '/' front.reverse).map String.ofList, String.ofList back.reverse, ?_, ?_⟩
    · have cut := parts_append_slash front.reverse (String.ofList back.reverse) (by simpa using last)
      rw [String.toList_ofList] at cut
      rw [parts, shape, cut]
    · intro empty
      have none : back = [] := by simpa using empty
      rw [endsInSlash, shape, none] at ends
      simp at ends
  · exact ⟨[], path, parts_of_whole whole, filled⟩

theorem mem_parts_of_name? {path name : String} (found : name? path = some name) :
    name ∈ parts path := by
  rw [name?] at found
  split at found
  · contradiction
  · exact List.mem_of_mem_filter (List.mem_of_getLast? found)

theorem mem_of_mem_stemOf {name : List Char} {c : Char} (member : c ∈ stemOf name) : c ∈ name := by
  simp only [stemOf] at member
  split_ifs at member
  · exact member
  · have inside := List.mem_of_mem_drop (List.mem_reverse.mp member)
    exact List.mem_reverse.mp ((List.dropWhile_sublist _).subset inside)
  · exact member

end Path

namespace Export

theorem whole_stem (source : String) : '/' ∉ (stem source).toList := by
  rw [stem, Path.stem?]
  cases found : Path.name? source with
  | none => decide
  | some name =>
    intro member
    rw [Option.map_some, Option.getD_some, String.toList_ofList] at member
    exact Path.whole_of_mem_parts (Path.mem_parts_of_name? found) (Path.mem_of_mem_stemOf member)

theorem toList_fileName (stem extension : String) (mode : Mode) (number : Nat) :
    (fileName stem mode number extension).toList =
      stem.toList ++ '-' :: (mode.slug.toList ++ '-' ::
        (Text.Numeral.write number ++ '.' :: extension.toList)) := by
  simp [fileName]

theorem whole_fileName {stem extension : String} (mode : Mode) (number : Nat)
    (front : '/' ∉ stem.toList) (ending : '/' ∉ extension.toList) :
    '/' ∉ (fileName stem mode number extension).toList := by
  have slug : '/' ∉ mode.slug.toList := by
    cases mode <;> decide
  have digits : '/' ∉ Text.Numeral.write number := by
    intro member
    have digit := Nat.isDigit_of_mem_toDigits (by decide) (by decide) member
    contradiction
  simp [toList_fileName, front, ending, slug, digits]

theorem isName_fileName (stem : String) (mode : Mode) (number : Nat) (extension : String) :
    Path.IsName (fileName stem mode number extension) := by
  have dash : '-' ∈ (fileName stem mode number extension).toList := by
    rw [toList_fileName]
    exact List.mem_append_right _ List.mem_cons_self
  refine ⟨?_, ?_, ?_⟩
  · intro same
    simp [same] at dash
  · intro same
    simp [same] at dash
  · intro same
    simp [same] at dash

theorem fileName_injective (stem : String) (mode : Mode) (extension : String) :
    Function.Injective fun number => fileName stem mode number extension := by
  intro m n same
  have letters := congrArg String.toList same
  simp only [toList_fileName, List.append_cancel_left_eq, List.cons.injEq, true_and,
    List.append_cancel_right_eq] at letters
  have value := congrArg (fun digits => Nat.ofDigitChars 10 digits 0) letters
  simpa [Text.Numeral.write] using value

end Export
end FieldPlot
