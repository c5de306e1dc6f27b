import FieldPlot.Proofs.Exports

/-!
Names of exports. A name is read from its end: behind the last dot is the format, and neither the
number nor the mode has a dash. So it tells the stem, mode, number and format that it was made of,
whatever the stem is, and exports of another series (`series`) never take its numbers.
-/
namespace FieldPlot

theorem Mode.slug_injective : Function.Injective Mode.slug := by
  intro mode mode' same
  cases mode <;> cases mode' <;> revert same <;> decide

theorem Mode.no_dash (mode : Mode) : '-' ∉ mode.slug.toList := by
  cases mode <;> decide

theorem Format.extension_injective : Function.Injective Format.extension := by
  intro format format' same
  cases format <;> cases format' <;> revert same <;> decide

theorem Format.no_dot (format : Format) : '.' ∉ format.extension.toList := by
  cases format <;> decide

namespace Export

variable {d next : Directory} {folder folder' source source' : String} {mode mode' : Mode}
  {format format' : Format} {f f' : Figure} {number number' : Nat} {p : Place}

/-- A name from its end: what is before the last dot, and before that what is before the last two
    dashes. -/
theorem fileName_from_end (stem : String) (mode : Mode) (number : Nat) (extension : String) :
    (fileName stem mode number extension).toList =
      ((stem.toList ++ '-' :: mode.slug.toList) ++ '-' :: Text.Numeral.write number) ++
        '.' :: extension.toList := by
  rw [toList_fileName]
  simp

theorem eq_of_fileName {stem stem' : String}
    (same : fileName stem mode number format.extension =
      fileName stem' mode' number' format'.extension) :
    stem = stem' ∧ mode = mode' ∧ number = number' ∧ format = format' := by
  have no_dash (n : Nat) : '-' ∉ Text.Numeral.write n := by
    intro member
    have digit := Nat.isDigit_of_mem_toDigits (by decide) (by decide) member
    contradiction
  have letters := congrArg String.toList same
  rw [fileName_from_end, fileName_from_end] at letters
  -- From the right: the extension, the number and the mode. What is left is the stem.
  obtain ⟨front, ending⟩ := Text.append_separator_inj format.no_dot format'.no_dot letters
  obtain ⟨front, -⟩ := Text.append_separator_inj (no_dash number) (no_dash number') front
  obtain ⟨front, slug⟩ := Text.append_separator_inj mode.no_dash mode'.no_dash front
  obtain rfl := String.toList_inj.mp front
  obtain rfl := Mode.slug_injective (String.toList_inj.mp slug)
  obtain rfl := Format.extension_injective (String.toList_inj.mp ending)
  exact ⟨rfl, rfl, fileName_injective stem mode format.extension same, rfl⟩

/-- The exports that are numbered together: those of one stem, in one mode and one format. -/
def series (source : String) (mode : Mode) (format : Format) : String × Mode × Format :=
  (stem source, mode, format)

theorem place_of_numbered
    (leads : d.Leads (numbered folder source mode format.extension number) p) :
    ∃ base, p = base ++ [fileName (stem source) mode number format.extension] := by
  obtain ⟨before, cut⟩ := Path.parts_join folder
  have whole := whole_fileName mode number (whole_stem source) format.whole_extension
  obtain ⟨base, _, _, _, rfl⟩ :=
    (Directory.leads_iff_of_name leads.1 (cut _ whole) (isName_fileName _ mode number _)).mp leads
  exact ⟨base, rfl⟩

/-- The numbered paths of different series lead to different places. -/
theorem place_ne_of_other (other : series source' mode' format' ≠ series source mode format)
    (leads : d.Leads (numbered folder' source' mode' format'.extension number') p) (base : Place)
    (number : Nat) : base ++ [fileName (stem source) mode number format.extension] ≠ p := by
  intro here
  obtain ⟨base', rfl⟩ := place_of_numbered leads
  obtain ⟨_, last⟩ := List.append_inj' here (by simp only [List.length_singleton])
  obtain ⟨stems, rfl, _, rfl⟩ := eq_of_fileName (List.singleton_inj.mp last)
  exact other (by rw [series, series, stems])

/-- An export leaves all files that have names of another series, and adds none. -/
theorem file_iff_run (other : series source' f'.mode format' ≠ series source mode format)
    (base : Place) (number : Nat) (document : Document) :
    Directory.entry? (run d folder' source' format' f').1
        (base ++ [fileName (stem source) mode number format.extension]) =
          some (.file document) ↔
      d.entry? (base ++ [fileName (stem source) mode number format.extension]) =
        some (.file document) := by
  generalize went : run d folder' source' format' f' = outcome
  obtain ⟨next, answer⟩ := outcome
  cases goes_of_run went with
  | noFolder made => exact (Directory.addsFolders_of_makeFolder made).file_iff _ document
  | noNumber made _ => exact (Directory.addsFolders_of_makeFolder made).file_iff _ document
  | refused made _ _ => exact (Directory.addsFolders_of_makeFolder made).file_iff _ document
  | written made chosen written =>
    obtain ⟨p, writes⟩ := Directory.writes_of_write written
    obtain ⟨_, _, rfl⟩ := path_eq_ok chosen
    have leads := writes.leads
    rw [writes.look, if_neg (place_ne_of_other other leads base number)]
    exact (Directory.addsFolders_of_makeFolder made).file_iff _ document

theorem find?_run (other : series source' f'.mode format' ≠ series source mode format)
    (stands : d.Stands folder') (folder : String) (number : Nat) :
    (run d folder' source' format' f').1.find?
        (numbered folder source mode format.extension number) =
      d.find? (numbered folder source mode format.extension number) := by
  generalize went : run d folder' source' format' f' = outcome
  obtain ⟨next, answer⟩ := outcome
  cases goes_of_run went with
  | noFolder made =>
    obtain ⟨_, fine⟩ := Prod.mk.inj (stands.symm.trans made)
    cases fine
  | noNumber made _ =>
    obtain ⟨rfl, _⟩ := Prod.mk.inj (stands.symm.trans made)
    rfl
  | refused made _ _ =>
    obtain ⟨rfl, _⟩ := Prod.mk.inj (stands.symm.trans made)
    rfl
  | written made chosen written =>
    obtain ⟨rfl, _⟩ := Prod.mk.inj (stands.symm.trans made)
    obtain ⟨p, writes⟩ := Directory.writes_of_write written
    obtain ⟨_, _, rfl⟩ := path_eq_ok chosen
    have leads := writes.leads
    refine writes.find?_of_elsewhere fun here => ?_
    obtain ⟨base, same⟩ := place_of_numbered here
    exact place_ne_of_other other leads base number same.symm

theorem freeAmong_congr {e : Directory} {numbers : Nat → String}
    (same : ∀ k, e.find? (numbers k) = d.find? (numbers k)) (left n : Nat) :
    freeAmong e numbers left n = freeAmong d numbers left n := by
  induction left generalizing n with
  | zero => rfl
  | succ left ih => rw [freeAmong, freeAmong, same, ih]

theorem path_congr {e : Directory}
    (same : ∀ number, e.find? (numbered folder source mode format.extension number) =
      d.find? (numbered folder source mode format.extension number)) :
    path e folder source mode format.extension = path d folder source mode format.extension := by
  rw [path, path, freeNumber, freeNumber, freeAmong_congr same]

theorem run_of_makeFolder {ready : Directory} (made : d.makeFolder folder = (ready, .ok ()))
    (source : String) (format : Format) (f : Figure) :
    run d folder source format f = run ready folder source format f := by
  have stands : ready.Stands folder := Directory.stands_of_makeFolder made fun _ => id
  rw [run, run, made, stands]

theorem run_of_stands {target : String} (stands : d.Stands folder)
    (chosen : path d folder source f.mode format.extension = .ok target)
    (written : d.write target (format.document f) = .ok next) :
    run d folder source format f = (next, .ok target) := by
  rw [run, stands]
  simp only [chosen, written]

namespace Action

inductive ExportsOther (own : String × Mode × Format) (folders : String → Prop) : Action → Prop
  | exporting {folder source : String} {format : Format} {f : Figure}
      (into : folders folder) (apart : series source f.mode format ≠ own) :
      ExportsOther own folders (.exporting folder source format f)

theorem ExportsOther.mono {own : String × Mode × Format} {folders further : String → Prop}
    {action : Action} (other : action.ExportsOther own folders)
    (within : ∀ folder, folders folder → further folder) : action.ExportsOther own further := by
  cases other with
  | exporting into apart => exact .exporting (within _ into) apart

theorem ExportsOther.not_removes {own : String × Mode × Format} {folders : String → Prop}
    {action : Action} (other : action.ExportsOther own folders) : ¬ action.Removes := by
  cases other with
  | exporting => exact id

variable {others : List Action} {folders : String → Prop}

theorem file_iff_foldl (d : Directory)
    (other : ∀ action ∈ others, action.ExportsOther (series source mode format) folders)
    (base : Place) (number : Nat) (document : Document) :
    Directory.entry? (others.foldl run d)
        (base ++ [fileName (stem source) mode number format.extension]) =
          some (.file document) ↔
      d.entry? (base ++ [fileName (stem source) mode number format.extension]) =
        some (.file document) := by
  induction others generalizing d with
  | nil => rfl
  | cons action others ih =>
    obtain ⟨first, rest⟩ := List.forall_mem_cons.mp other
    refine (ih (action.run d) rest).trans ?_
    cases first with
    | exporting _ apart => exact file_iff_run apart base number document

theorem find?_foldl (d : Directory)
    (other : ∀ action ∈ others, action.ExportsOther (series source mode format) d.Stands)
    (folder : String) (number : Nat) :
    (others.foldl run d).find? (numbered folder source mode format.extension number) =
      d.find? (numbered folder source mode format.extension number) := by
  induction others generalizing d with
  | nil => rfl
  | cons action others ih =>
    obtain ⟨first, rest⟩ := List.forall_mem_cons.mp other
    have remains := remains_run d first.not_removes
    have still : ∀ action' ∈ others,
        action'.ExportsOther (series source mode format) (action.run d).Stands := by
      intro action' member
      exact (rest action' member).mono fun folder stands =>
        Directory.stands_of_makeFolder stands remains.folders
    refine (ih (action.run d) still).trans ?_
    cases first with
    | exporting stands apart => exact find?_run apart stands folder number

theorem run_foldl {target : String} (stands : d.Stands folder)
    (other : ∀ action ∈ others, action.ExportsOther (series source f.mode format) d.Stands)
    (chosen : path d folder source f.mode format.extension = .ok target)
    (written : d.write target (format.document f) = .ok next) :
    ∃ last, Export.run (others.foldl run d) folder source format f = (last, .ok target) := by
  have remains := remains_foldl d others fun action member => (other action member).not_removes
  have chosen' : path (others.foldl run d) folder source f.mode format.extension = .ok target :=
    (path_congr (find?_foldl d other folder)).trans chosen
  obtain ⟨number, first, named⟩ := path_eq_ok chosen'
  have free : (others.foldl run d).find? target = none := named ▸ first.free
  obtain ⟨last, again⟩ :=
    Directory.write_of_free (format.document f) written remains.folders free
  have stands' := Directory.stands_of_makeFolder stands remains.folders
  exact ⟨last, run_of_stands stands' chosen' again⟩

theorem foldl_of_makeFolder {own : String × Mode × Format} {ready : Directory} {action : Action}
    (made : d.makeFolder folder = (ready, .ok ()))
    (first : action.ExportsOther own (· = folder)) :
    (action :: others).foldl run d = (action :: others).foldl run ready := by
  cases first with
  | exporting into _ =>
    subst into
    simp only [List.foldl_cons, run, run_of_makeFolder made]

end Action

/-- The name of an export tells its stem, mode, number and format. So exports of other series leave
    the files of this one as they are, wherever they go, and those into folders that stand leave the
    path that comes next. Those into the folder of an export leave the path that it returns, also
    where the folder is made by the first of them. -/
theorem names_tell_exports_apart :
    (∀ (stem stem' : String) (mode mode' : Mode) (number number' : Nat) (format format' : Format),
      fileName stem mode number format.extension =
        fileName stem' mode' number' format'.extension →
      stem = stem' ∧ mode = mode' ∧ number = number' ∧ format = format') ∧
    ∀ (d : Directory) (folder source : String) (format : Format) (f : Figure)
      (others : List Action),
      ((∀ action ∈ others, action.ExportsOther (series source f.mode format) fun _ => True) →
        ∀ base number document,
          Directory.entry? (others.foldl Action.run d)
              (base ++ [fileName (stem source) f.mode number format.extension]) =
                some (.file document) ↔
            d.entry? (base ++ [fileName (stem source) f.mode number format.extension]) =
              some (.file document)) ∧
      ((∀ action ∈ others, action.ExportsOther (series source f.mode format) d.Stands) →
        path (others.foldl Action.run d) folder source f.mode format.extension =
          path d folder source f.mode format.extension) ∧
      ((∀ action ∈ others, action.ExportsOther (series source f.mode format) (· = folder)) →
        ∀ next target, run d folder source format f = (next, .ok target) →
          ∃ last, run (others.foldl Action.run d) folder source format f = (last, .ok target)) := by
  constructor
  · intro stem stem' mode mode' number number' format format' same
    exact eq_of_fileName same
  intro d folder source format f others
  refine ⟨Action.file_iff_foldl d, ?_, ?_⟩
  · intro other
    exact path_congr (Action.find?_foldl d other folder)
  · intro other next target done
    cases others with
    | nil => exact ⟨next, done⟩
    | cons action others =>
      cases goes_of_run done with
      | written made chosen written =>
        have stands := Directory.stands_of_makeFolder made fun _ => id
        rw [Action.foldl_of_makeFolder made (List.forall_mem_cons.mp other).1]
        refine Action.run_foldl stands (fun action member => ?_) chosen written
        exact (other action member).mono fun _ same => same ▸ stands

/-- Exports beside those of `run.csv` as tables of snapshots: for a stem that looks like the name of
    such an export, and in another format. -/
def besideRun : List Action :=
  [.exporting "out" "run-snapshot-1.csv" .table dot, .exporting "out" "run.csv" .drawing dot]

theorem names_beside_run :
    (∀ stem mode number (format : Format),
      fileName stem mode number format.extension = "run-snapshot-1-snapshot_sequence-10.svg" →
      stem = "run-snapshot-1" ∧ mode = .sequence ∧ number = 10 ∧ format = .drawing) ∧
    (∀ action ∈ besideRun, action.ExportsOther (series "run.csv" .snapshot .table) fun _ => True) ∧
    Directory.entry? (besideRun.foldl Action.run secondTaken) ["out", "run-snapshot-2.csv"] =
      some (.file (.text "")) ∧
    secondTaken.Stands "out" ∧
    path (besideRun.foldl Action.run secondTaken) "out" "run.csv" .snapshot "csv" =
      .ok "out/run-snapshot-1.csv" ∧
    ∃ next last, run {} "out" "run.csv" .table dot = (next, .ok "out/run-snapshot-1.csv") ∧
      run (besideRun.foldl Action.run {}) "out" "run.csv" .table dot =
        (last, .ok "out/run-snapshot-1.csv") := by
  obtain ⟨readable, apart⟩ := names_tell_exports_apart
  have others {folders : String → Prop} (into : folders "out") : ∀ action ∈ besideRun,
      action.ExportsOther (series "run.csv" .snapshot .table) folders := by
    intro action member
    obtain rfl | rfl := List.mem_pair.mp member
    · exact .exporting into (by decide +kernel)
    · exact .exporting into (by decide +kernel)
  have stands : secondTaken.Stands "out" := by
    unfold Directory.Stands
    decide +kernel
  obtain ⟨files, paths, _⟩ := apart secondTaken "out" "run.csv" .table dot besideRun
  obtain ⟨_, _, answers⟩ := apart {} "out" "run.csv" .table dot besideRun
  refine ⟨fun stem mode number format same => ?_, others trivial,
    (files (others trivial) ["out"] 2 (.text "")).mpr (by decide +kernel), stands,
    (paths (others stands)).trans (by decide +kernel), ?_⟩
  · exact readable stem "run-snapshot-1" mode .sequence number 10 format .drawing
      (same.trans (by decide +kernel))
  · have first : (run {} "out" "run.csv" .table dot).2 = .ok "out/run-snapshot-1.csv" := by
      decide +kernel
    generalize done : run {} "out" "run.csv" .table dot = outcome at first
    obtain ⟨next, _⟩ := outcome
    obtain rfl := first
    obtain ⟨last, again⟩ := answers (others rfl) next _ done
    exact ⟨next, last, rfl, again⟩

end Export
end FieldPlot
