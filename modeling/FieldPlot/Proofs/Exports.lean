import FieldPlot.Figure.Request
import FieldPlot.Proofs.Directories

/-!
Exports never overwrite. An export writes to the first numbered path that leads to nothing; there is
one as long as the directory has fewer entries than numbers can count, and without one the program
halts. It adds that one file and leaves all others as they are. Until something is removed what it
wrote to stays taken, so no later export writes there.
-/
namespace FieldPlot

theorem Format.whole_extension (format : Format) : '/' ∉ format.extension.toList := by
  cases format <;> decide

namespace Export

variable {d next : Directory} {folder source path : String} {format : Format} {f : Figure}
  {numbers : Nat → String}

structure FirstFree (d : Directory) (numbers : Nat → String) (number : Nat) : Prop where
  positive : 1 ≤ number
  counted : number ≤ lastNumber
  free : d.find? (numbers number) = none
  taken : ∀ m, 1 ≤ m → m < number → (d.find? (numbers m)).isSome

theorem freeAmong_eq_some {left n number : Nat} (found : freeAmong d numbers left n = some number) :
    n ≤ number ∧ number < n + left ∧ d.find? (numbers number) = none ∧
      ∀ m, n ≤ m → m < number → (d.find? (numbers m)).isSome := by
  induction left generalizing n with
  | zero => contradiction
  | succ left ih =>
    rw [freeAmong] at found
    split_ifs at found with free
    · obtain rfl := Option.some.inj found
      exact ⟨le_rfl, by omega, Option.isNone_iff_eq_none.mp free, fun m low high => by omega⟩
    · obtain ⟨low, high, nothing, taken⟩ := ih found
      refine ⟨by omega, by omega, nothing, fun m from_here below => ?_⟩
      rcases Nat.eq_or_lt_of_le from_here with rfl | beyond
      · exact Option.isSome_iff_ne_none.mpr (by simpa using free)
      · exact taken m beyond below

theorem freeAmong_eq_none {left n : Nat} (none : freeAmong d numbers left n = none) :
    ∀ m, n ≤ m → m < n + left → (d.find? (numbers m)).isSome := by
  induction left generalizing n with
  | zero => exact fun m low high => by omega
  | succ left ih =>
    rw [freeAmong] at none
    split_ifs at none with free
    intro m low high
    rcases Nat.eq_or_lt_of_le low with rfl | beyond
    · exact Option.isSome_iff_ne_none.mpr (by simpa using free)
    · exact ih none m beyond (by omega)

/-- The search ends: with the first number that has a path, or for want of one it halts. -/
theorem freeNumber_cases (d : Directory) (numbers : Nat → String) :
    (∃ number, freeNumber d numbers = .ok number ∧ FirstFree d numbers number) ∨
      freeNumber d numbers = .error (.halt .sum) ∧
        ∀ n, 1 ≤ n → n ≤ lastNumber → (d.find? (numbers n)).isSome := by
  rw [freeNumber]
  cases found : freeAmong d numbers lastNumber 1 with
  | some number =>
    obtain ⟨positive, counted, free, taken⟩ := freeAmong_eq_some found
    exact .inl ⟨number, rfl, positive, by omega, free, taken⟩
  | none =>
    exact .inr ⟨rfl, fun n positive counted => freeAmong_eq_none found n positive (by omega)⟩

theorem firstFree_of_freeNumber {number : Nat} (found : freeNumber d numbers = .ok number) :
    FirstFree d numbers number := by
  rcases freeNumber_cases d numbers with ⟨other, found', first⟩ | ⟨halts, _⟩
  · obtain rfl := Except.ok.inj (found'.symm.trans found)
    exact first
  · rw [halts] at found
    contradiction

theorem taken_of_halt {cause : Error} (halts : freeNumber d numbers = .error cause) :
    cause = .halt .sum ∧ ∀ n, 1 ≤ n → n ≤ lastNumber → (d.find? (numbers n)).isSome := by
  rcases freeNumber_cases d numbers with ⟨number, found, _⟩ | ⟨halts', taken⟩
  · rw [found] at halts
    contradiction
  · exact ⟨(Except.error.inj (halts'.symm.trans halts)).symm, taken⟩

theorem taken_in_folder (d : Directory) (folder source : String) (mode : Mode) {extension : String}
    (ending : '/' ∉ extension.toList) :
    ∃ base : Place, ∀ n, (d.find? (numbered folder source mode extension n)).isSome →
      base ++ [fileName (stem source) mode n extension] ∈ d.entries.map Prod.fst := by
  have whole : ∀ n, '/' ∉ (fileName (stem source) mode n extension).toList := fun n =>
    whole_fileName mode n (whole_stem source) ending
  have isName : ∀ n, Path.IsName (fileName (stem source) mode n extension) := fun n =>
    isName_fileName _ mode n _
  obtain ⟨before, cut⟩ := Path.parts_join folder
  have inFolder : ∀ n, (d.find? (numbered folder source mode extension n)).isSome →
      ∃ base, d.walk (Path.startOf before).1 (Path.startOf before).2 = .ok base ∧
        base ++ [fileName (stem source) mode n extension] ∈ d.entries.map Prod.fst := by
    intro n taken
    obtain ⟨x, found⟩ := Option.isSome_iff_exists.mp taken
    obtain ⟨p, leads, there⟩ := Directory.leads_of_found found
    obtain ⟨base, reached, _, _, rfl⟩ :=
      (Directory.leads_iff_of_name leads.1 (cut _ (whole n)) (isName n)).mp leads
    have own := Directory.not_fixed_of_name (isName n) (whole n) base
    exact ⟨base, reached, Directory.mem_keys_of_look own there⟩
  -- The walk to the folder does not depend on the number, so there is one such place.
  cases walked : d.walk (Path.startOf before).1 (Path.startOf before).2 with
  | error cause =>
    refine ⟨[], fun n taken => ?_⟩
    obtain ⟨base, reached, _⟩ := inFolder n taken
    rw [walked] at reached
    contradiction
  | ok base =>
    refine ⟨base, fun n taken => ?_⟩
    obtain ⟨other, reached, key⟩ := inFolder n taken
    obtain rfl := Except.ok.inj (walked.symm.trans reached)
    exact key

/-- There are more numbers than entries, and the paths of different numbers lead to different
    places. -/
theorem exists_free (d : Directory) (folder source : String) (mode : Mode) {extension : String}
    (ending : '/' ∉ extension.toList) :
    ∃ n, 1 ≤ n ∧ n ≤ d.entries.length + 1 ∧
      d.find? (numbered folder source mode extension n) = none := by
  by_contra! all
  obtain ⟨base, keys⟩ := taken_in_folder d folder source mode ending
  let place (i : Nat) := base ++ [fileName (stem source) mode (i + 1) extension]
  have distinct : ((List.range (d.entries.length + 1)).map place).Nodup := by
    refine List.nodup_range.map fun i j same => ?_
    have last := List.append_cancel_left same
    exact Nat.succ.inj (fileName_injective (stem source) mode extension (List.cons.inj last).1)
  have subset : (List.range (d.entries.length + 1)).map place ⊆ d.entries.map Prod.fst := by
    intro p member
    obtain ⟨i, short, rfl⟩ := List.mem_map.mp member
    have bound : i + 1 ≤ d.entries.length + 1 := List.mem_range.mp short
    exact keys (i + 1) (Option.isSome_iff_ne_none.mpr (all (i + 1) (Nat.le_add_left 1 i) bound))
  have fewer := distinct.length_le_of_subset subset
  simp only [List.length_map, List.length_range] at fewer
  omega

theorem freeNumber_of_few (few : d.entries.length < lastNumber) (folder source : String)
    (mode : Mode) (format : Format) :
    ∃ number, freeNumber d (numbered folder source mode format.extension) = .ok number := by
  rcases freeNumber_cases d (numbered folder source mode format.extension) with
    ⟨number, found, _⟩ | ⟨_, taken⟩
  · exact ⟨number, found⟩
  · obtain ⟨n, positive, bounded, free⟩ := exists_free d folder source mode format.whole_extension
    have present := taken n positive (by omega)
    rw [free] at present
    contradiction

theorem path_eq_ok {mode : Mode} (chosen : Export.path d folder source mode format.extension = .ok path) :
    ∃ number, FirstFree d (numbered folder source mode format.extension) number ∧
      path = numbered folder source mode format.extension number := by
  obtain ⟨number, found, rfl⟩ := map_eq_ok chosen
  exact ⟨number, firstFree_of_freeNumber found, rfl⟩

/-- What a successful export did. The search is for the folder as it stands when all of it is
    made, which is the directory itself where the folder is already there. -/
structure Exported (d : Directory) (folder source : String) (format : Format) (f : Figure)
    (path : String) (next : Directory) : Prop where
  chosen : ∃ ready number, d.makeFolder folder = (ready, .ok ()) ∧
    (d.find? folder = some .folder → ready = d) ∧
    path = numbered folder source f.mode format.extension number ∧
    FirstFree ready (numbered folder source f.mode format.extension) number
  fresh : d.find? path = none
  written : next.find? path = some (.file (format.document f))
  onlyFile : ∃ p, next.Leads path p ∧ d.entry? p = none ∧ ∀ q document,
    next.entry? q = some (.file document) ↔
      d.entry? q = some (.file document) ∨ q = p ∧ document = format.document f
  keeps : d.Keeps next

inductive Goes (d : Directory) (folder source : String) (format : Format) (f : Figure) :
    Directory → Except Error String → Prop
  | noFolder {ready : Directory} {cause : SystemFault} :
      d.makeFolder folder = (ready, .error cause) →
      Goes d folder source format f ready (.error (.system cause))
  | noNumber {ready : Directory} {cause : Error} :
      d.makeFolder folder = (ready, .ok ()) →
      Export.path ready folder source f.mode format.extension = .error cause →
      Goes d folder source format f ready (.error cause)
  | refused {ready : Directory} {path : String} {cause : SystemFault} :
      d.makeFolder folder = (ready, .ok ()) →
      Export.path ready folder source f.mode format.extension = .ok path →
      ready.write path (format.document f) = .error cause →
      Goes d folder source format f ready (.error (format.refusal path cause))
  | written {ready last : Directory} {path : String} :
      d.makeFolder folder = (ready, .ok ()) →
      Export.path ready folder source f.mode format.extension = .ok path →
      ready.write path (format.document f) = .ok last →
      Goes d folder source format f last (.ok path)

theorem goes_run (d : Directory) (folder source : String) (format : Format) (f : Figure) :
    Goes d folder source format f (run d folder source format f).1
      (run d folder source format f).2 := by
  rw [run]
  split
  · rename_i made
    exact .noFolder made
  · rename_i ready made
    split
    · rename_i halts
      exact .noNumber made halts
    · rename_i path chosen
      split
      · rename_i written
        exact .written made chosen written
      · rename_i refused
        exact .refused made chosen refused

theorem goes_of_run {answer : Except Error String}
    (done : run d folder source format f = (next, answer)) :
    Goes d folder source format f next answer := by
  have goes := goes_run d folder source format f
  rwa [done] at goes

theorem exported_of_run (done : run d folder source format f = (next, .ok path)) :
    Exported d folder source format f path next := by
  cases goes_of_run done with
  | written made chosen written =>
    rename_i ready
    have adds := Directory.addsFolders_of_makeFolder made
    obtain ⟨number, first, named⟩ := path_eq_ok chosen
    have free : ready.find? path = none := named ▸ first.free
    obtain ⟨p, writes⟩ := Directory.writes_of_write written
    have nothing : ready.entry? p = none := writes.found.symm.trans free
    refine ⟨⟨ready, number, made, fun there => ?_, named, first⟩, adds.keeps.free free,
      writes.find?_eq, ⟨p, writes.leads, ?_, fun q document => ?_⟩,
      adds.keeps.trans (writes.keeps free)⟩
    · rw [Directory.makeFolder_of_folder there] at made
      exact (Prod.mk.inj made).1.symm
    · by_contra present
      obtain ⟨x, there⟩ := Option.ne_none_iff_exists'.mp present
      rw [adds.keeps p x there] at nothing
      contradiction
    · rw [writes.file_iff free, adds.file_iff]

/-- Only for want of a number an export halts. -/
theorem taken_of_run {cause : Halt}
    (halts : run d folder source format f = (next, .error (.halt cause))) :
    ∀ n, 1 ≤ n → n ≤ lastNumber →
      (next.find? (numbered folder source f.mode format.extension n)).isSome := by
  generalize answered : Except.error (Error.halt cause) = answer at halts
  cases goes_of_run halts with
  | noFolder => cases answered
  | noNumber made halted => exact (taken_of_halt (map_eq_error halted)).2
  | refused => cases format <;> cases answered
  | written => cases answered

theorem remains_run (d : Directory) (folder source : String) (format : Format) (f : Figure) :
    d.Remains (run d folder source format f).1 := by
  have remains {ready : Directory} {answer : Except SystemFault Unit}
      (made : d.makeFolder folder = (ready, answer)) : d.Remains ready :=
    .of_keeps (Directory.addsFolders_of_makeFolder made).keeps
  generalize went : run d folder source format f = answer
  obtain ⟨next, answer⟩ := answer
  cases goes_of_run went with
  | noFolder made => exact remains made
  | noNumber made _ => exact remains made
  | refused made _ _ => exact remains made
  | written made _ written =>
    obtain ⟨p, writes⟩ := Directory.writes_of_write written
    exact (remains made).trans (.of_writes writes)

/-- What can happen to a directory between two exports. Of what is refused nothing stays but
    folders made on the way. -/
inductive Action where
  | create (path : String) (document : Document)
  | makeFolder (path : String)
  | remove (path : String)
  | exporting (folder source : String) (format : Format) (f : Figure)

namespace Action

def run (d : Directory) : Action → Directory
  | create path document =>
    match d.write path document with
    | .ok next => next
    | .error _ => d
  | makeFolder path => (d.makeFolder path).1
  | remove path =>
    match d.remove path with
    | .ok next => next
    | .error _ => d
  | exporting folder source format f => (Export.run d folder source format f).1

def Removes : Action → Prop
  | remove _ => True
  | _ => False

theorem remains_run (d : Directory) {action : Action} (keeping : ¬ action.Removes) :
    d.Remains (action.run d) := by
  cases action with
  | create path document =>
    rw [run]
    split
    · rename_i written
      obtain ⟨p, writes⟩ := Directory.writes_of_write written
      exact .of_writes writes
    · exact .refl d
  | makeFolder path => exact .of_keeps (Directory.addsFolders_makeFolder d path).keeps
  | remove path => exact absurd trivial keeping
  | exporting folder source format f => exact Export.remains_run d folder source format f

theorem remains_foldl (d : Directory) (actions : List Action)
    (keeping : ∀ action ∈ actions, ¬ action.Removes) : d.Remains (actions.foldl run d) := by
  induction actions generalizing d with
  | nil => exact .refl d
  | cons action actions ih =>
    obtain ⟨first, rest⟩ := List.forall_mem_cons.mp keeping
    exact (remains_run d first).trans (ih (action.run d) rest)

end Action

/-- In every directory the search for a free path ends, with the first number that has one, or with a
    halt where all numbers that it can count are taken; a directory with fewer entries has a free
    one. An export halts for that cause only. A successful export adds a file at its path and changes
    no other, and as long as nothing is removed, whatever else is done and exported, no later export
    returns the path again. -/
theorem exports_never_overwrite (d : Directory) (folder source : String) (format : Format)
    (f : Figure) :
    ((∃ number, freeNumber d (numbered folder source f.mode format.extension) = .ok number ∧
        FirstFree d (numbered folder source f.mode format.extension) number) ∨
      freeNumber d (numbered folder source f.mode format.extension) = .error (.halt .sum) ∧
        ∀ n, 1 ≤ n → n ≤ lastNumber →
          (d.find? (numbered folder source f.mode format.extension n)).isSome) ∧
    (d.entries.length < lastNumber → ∃ number,
      freeNumber d (numbered folder source f.mode format.extension) = .ok number) ∧
    (∀ next cause, run d folder source format f = (next, .error (.halt cause)) →
      d.Remains next ∧ ∀ n, 1 ≤ n → n ≤ lastNumber →
        (next.find? (numbered folder source f.mode format.extension n)).isSome) ∧
    ∀ next path, run d folder source format f = (next, .ok path) →
      Exported d folder source format f path next ∧
      ∀ actions : List Action, (∀ action ∈ actions, ¬ action.Removes) →
        ∀ folder' source' format' f' last path',
          run (actions.foldl Action.run next) folder' source' format' f' = (last, .ok path') →
          path' ≠ path := by
  refine ⟨freeNumber_cases d _, fun few => freeNumber_of_few few folder source f.mode format,
    fun next cause halts => ⟨?_, taken_of_run halts⟩, fun next target done => ?_⟩
  · have remains := remains_run d folder source format f
    rwa [halts] at remains
  · have exported := exported_of_run done
    refine ⟨exported, ?_⟩
    intro actions keeping folder' source' format' f' last target' again same
    have there : (next.find? target).isSome := Option.isSome_of_eq_some exported.written
    have still := (Action.remains_foldl next actions keeping).find?_isSome there
    rw [← same, (exported_of_run again).fresh] at still
    contradiction

def secondTaken : Directory :=
  ⟨[(["out"], .folder), (["out", "run-snapshot-2.csv"], .file (.text ""))]⟩

def dot : Figure :=
  ({} : Request).figure .snapshot none { content := .line [1] }

theorem exports_around_second :
    (∃ number, freeNumber secondTaken (numbered "out" "run.csv" .snapshot "csv") = .ok number) ∧
    ∃ next last,
      run secondTaken "out" "run.csv" .table dot = (next, .ok "out/run-snapshot-1.csv") ∧
      Exported secondTaken "out" "run.csv" .table dot "out/run-snapshot-1.csv" next ∧
      run next "out" "run.csv" .table dot = (last, .ok "out/run-snapshot-3.csv") ∧
      "out/run-snapshot-3.csv" ≠ "out/run-snapshot-1.csv" := by
  have first : (run secondTaken "out" "run.csv" .table dot).2 = .ok "out/run-snapshot-1.csv" := by
    decide +kernel
  have second : (run (run secondTaken "out" "run.csv" .table dot).1 "out" "run.csv" .table dot).2 =
      .ok "out/run-snapshot-3.csv" := by
    decide +kernel
  generalize done : run secondTaken "out" "run.csv" .table dot = answer at first second
  obtain ⟨next, _⟩ := answer
  generalize again : run next "out" "run.csv" .table dot = answer at second
  obtain ⟨last, _⟩ := answer
  obtain rfl := first
  obtain rfl := second
  obtain ⟨_, found, _, exports⟩ := exports_never_overwrite secondTaken "out" "run.csv" .table dot
  obtain ⟨exported, apart⟩ := exports next _ done
  have kept : ∀ action : Action, action ∈ [] → ¬ action.Removes := List.forall_mem_nil _
  exact ⟨found (by decide), next, last, rfl, exported, again, apart [] kept _ _ _ _ last _ again⟩

end Export
end FieldPlot
