import FieldPlot.Command
import FieldPlot.Proofs.Exports
import FieldPlot.Proofs.Sequences

/-!
The command for sequences is all or nothing up to its exports. Where the recording cannot be read, a
place of the sequence has no figure or drawings would be printed, it prints nothing and leaves the
directory as it was. Where it succeeds with a folder, it prints one new path for each place, and the
path leads to the figure of that place.
-/
namespace FieldPlot.Command

variable {d after : Directory} {file source folder : String} {target : Target}
  {o final : Outcome} {figures : List Figure} {paths : List String}

/-- Nothing is printed, and the directory is as it was. The code is that of a failure or of a halt. -/
structure LeavesNothing (d after : Directory) (o : Outcome) : Prop where
  unchanged : after = d
  failed : o.code = 1 ∨ o.code = 101
  silent : o.output = ""

theorem LeavesNothing.code_ne_zero (left : LeavesNothing d after o) : o.code ≠ 0 := by
  intro fine
  have failed := left.failed
  omega

theorem leavesNothing_of_failed (d : Directory) (text : String) :
    LeavesNothing d d (({} : Outcome).failed text) :=
  ⟨rfl, .inl rfl, rfl⟩

theorem code_of_ended (o : Outcome) (cause : Error) :
    (o.ended cause).code = 1 ∨ (o.ended cause).code = 101 := by
  cases cause with
  | halt cause => exact .inr rfl
  | _ => exact .inl rfl

theorem output_of_ended (o : Outcome) (cause : Error) : (o.ended cause).output = o.output := by
  cases cause with
  | _ => rfl

theorem leavesNothing_of_ended (d : Directory) (cause : Error) :
    LeavesNothing d d (({} : Outcome).ended cause) :=
  ⟨rfl, code_of_ended _ cause, output_of_ended _ cause⟩

structure Emitted (d : Directory) (format : Format) (figures : List Figure) (paths : List String)
    (after : Directory) : Prop where
  fresh : ∀ path ∈ paths, d.find? path = none
  distinct : paths.Nodup
  written : List.Forall₂ (fun f path => after.find? path = some (.file (format.document f)))
    figures paths
  keeps : d.Keeps after

namespace Emitted

theorem nil (d : Directory) (format : Format) : Emitted d format [] [] d :=
  ⟨nofun, .nil, .nil, .refl d⟩

theorem cons {next : Directory} {format : Format} {f : Figure} {path : String}
    (first : Export.Exported d folder source format f path next)
    (rest : Emitted next format figures paths after) :
    Emitted d format (f :: figures) (path :: paths) after where
  fresh := by
    rw [List.forall_mem_cons]
    exact ⟨first.fresh, fun later member => first.keeps.free (rest.fresh later member)⟩
  distinct := by
    refine List.nodup_cons.mpr ⟨fun again => ?_, rest.distinct⟩
    have free := rest.fresh path again
    rw [first.written] at free
    contradiction
  written := .cons (Directory.find?_of_keeps rest.keeps first.written) rest.written
  keeps := first.keeps.trans rest.keeps

theorem each {format : Format} (emitted : Emitted d format figures paths after) {place : Nat}
    {f : Figure} (there : figures[place]? = some f) :
    ∃ path, paths[place]? = some path ∧ after.find? path = some (.file (format.document f)) := by
  obtain ⟨short, same⟩ := List.getElem?_eq_some_iff.mp there
  have inside : place < paths.length := emitted.written.length_eq ▸ short
  have holds := emitted.written.get short inside
  simp only [List.get_eq_getElem, same] at holds
  exact ⟨paths[place], List.getElem?_eq_getElem inside, holds⟩

end Emitted

def listing (paths : List String) : String :=
  String.join (paths.map (· ++ "\n"))

theorem listing_cons (path : String) (paths : List String) :
    listing (path :: paths) = path ++ "\n" ++ listing paths := by
  simp [listing]

theorem emit_of_export {next : Directory} {f : Figure} {path : String}
    (into : target.folder = some folder)
    (done : Export.run d folder source target.format f = (next, .ok path)) :
    emit d o source target f =
      (next, .ok ((o.note (describe f ++ "\n")).print (path ++ "\n"))) := by
  simp only [emit, into, done]

theorem emit_of_refusal {next : Directory} {f : Figure} {cause : Error}
    (into : target.folder = some folder)
    (refused : Export.run d folder source target.format f = (next, .error cause)) :
    emit d o source target f =
      (next, .error ((o.note (describe f ++ "\n")).ended cause)) := by
  simp only [emit, into, refused]

theorem emitted_of_emitAll (into : target.folder = some folder)
    (done : emitAll source target d o figures = (after, final)) (fine : final.code = 0) :
    ∃ paths, Emitted d target.format figures paths after ∧
      final.output = o.output ++ listing paths := by
  induction figures generalizing d o with
  | nil =>
    obtain ⟨rfl, rfl⟩ := Prod.mk.inj done
    exact ⟨[], .nil d _, by simp [listing]⟩
  | cons f figures ih =>
    rw [emitAll] at done
    cases went : Export.run d folder source target.format f with
    | mk next answer =>
      cases answer with
      | error cause =>
        rw [emit_of_refusal into went] at done
        obtain ⟨_, rfl⟩ := Prod.mk.inj done
        have failed := code_of_ended (o.note (describe f ++ "\n")) cause
        omega
      | ok path =>
        rw [emit_of_export into went] at done
        obtain ⟨paths, emitted, printed⟩ := ih done
        refine ⟨path :: paths, .cons (Export.exported_of_run went) emitted, ?_⟩
        rw [printed, listing_cons, ← String.append_assoc]
        rfl

theorem leavesNothing_of_unread {cause : Error} (fails : Recording.load d file = .error cause)
    (task : Task) : LeavesNothing d (runTask d file task).1 (runTask d file task).2 := by
  rw [runTask, fails]
  split_ifs
  · exact leavesNothing_of_failed d _
  · exact leavesNothing_of_failed d _

theorem runTask_of_read {r : Recording} (read : Recording.load d file = .ok r) (task : Task) :
    runTask d file task = perform d file r task := by
  have there : (d.find? file).isNone = false := by
    rw [Recording.load] at read
    split at read
    · contradiction
    · contradiction
    · simp [*]
  rw [runTask, there, read]
  rfl

/-- Where the recording cannot be read, a place has no figure or drawings would be printed, nothing
    is left. A success with a folder leaves one new file for each place, with its figure. -/
structure AllOrNothing (d : Directory) (file : String) (target : Target)
    (shot : Recording → Nat → Except Error Figure) (count : Nat) (after : Directory)
    (o : Outcome) : Prop where
  nothing : ((∃ cause, Recording.load d file = .error cause) ∨
      (∃ r cause, Recording.load d file = .ok r ∧ ∃ place < count, shot r place = .error cause) ∨
      lacksFolder target = true) → LeavesNothing d after o
  all : ∀ folder, target.folder = some folder → o.code = 0 →
    ∃ r paths, Recording.load d file = .ok r ∧ o.output = listing paths ∧ paths.length = count ∧
      paths.Nodup ∧ (∀ path ∈ paths, d.find? path = none) ∧ d.Keeps after ∧
      ∀ place < count, ∃ f path, shot r place = .ok f ∧ paths[place]? = some path ∧
        after.find? path = some (.file (target.format.document { f with mode := .sequence }))

variable {r : Recording} {q : Request} {start stride count : Nat}

theorem AllOrNothing.of_leavesNothing {shot : Recording → Nat → Except Error Figure}
    (left : LeavesNothing d after o) : AllOrNothing d file target shot count after o where
  nothing := fun _ => left
  all := fun _ _ fine => absurd fine left.code_ne_zero

theorem allOrNothing_of_planned (read : Recording.load d file = .ok r)
    (planned : r.sequence q start stride count = .ok figures) :
    AllOrNothing d file target (fun r place => r.snapshot q (start + place * stride)) count
      (deliver d file target (.ok figures)).1 (deliver d file target (.ok figures)).2 := by
  obtain ⟨length, each⟩ := Recording.figures_of_sequence planned
  refine ⟨?_, fun folder into fine => ?_⟩
  · rintro (⟨cause, fails⟩ | ⟨other, cause, same, place, bound, fails⟩ | lacks)
    · rw [read] at fails
      contradiction
    · obtain rfl := Except.ok.inj (read.symm.trans same)
      obtain ⟨f, done, _⟩ := each place bound
      exact nomatch done.symm.trans fails
    · rw [deliver, if_pos lacks]
      exact leavesNothing_of_failed d _
  · have folders : lacksFolder target = false := by simp [lacksFolder, into]
    rw [deliver, folders] at fine
    rw [deliver, folders]
    obtain ⟨paths, emitted, printed⟩ := emitted_of_emitAll into rfl fine
    refine ⟨r, paths, read, ?_, emitted.written.length_eq.symm.trans length, emitted.distinct,
      emitted.fresh, emitted.keeps, fun place bound => ?_⟩
    · simpa using printed
    · obtain ⟨f, done, there⟩ := each place bound
      obtain ⟨path, printed, holds⟩ := emitted.each there
      exact ⟨f, path, done, printed, holds⟩

theorem allOrNothing_runTask (d : Directory) (file : String) (q : Request) (start stride count : Nat)
    (target : Target) :
    AllOrNothing d file target (fun r place => r.snapshot q (start + place * stride)) count
      (runTask d file (.sequence q start stride count target)).1
      (runTask d file (.sequence q start stride count target)).2 := by
  cases read : Recording.load d file with
  | error cause => exact .of_leavesNothing (leavesNothing_of_unread read _)
  | ok r =>
    rw [runTask_of_read read, perform]
    cases planned : r.sequence q start stride count with
    | error cause => exact .of_leavesNothing (leavesNothing_of_ended d cause)
    | ok figures => exact allOrNothing_of_planned read planned

/-- The directory in which the recording is looked for: with the log, where there is one. -/
inductive Invocation.Starts (i : Invocation) (d : Directory) : Directory → Prop
  | plain : i.log = none → Starts i d d
  | logged {log : String} {ready : Directory} : i.log = some log →
      d.write log (.text logStart) = .ok ready → Starts i d ready

namespace Invocation

variable {i : Invocation} {ready : Directory}

theorem run_of_starts (starts : i.Starts d ready) : i.run d = runTask ready i.file i.task := by
  cases starts with
  | plain none => rw [run, none]
  | logged some written => simp only [run, some, written]

theorem leavesNothing_of_not_starts (stuck : ∀ ready, ¬ i.Starts d ready) :
    LeavesNothing d (i.run d).1 (i.run d).2 := by
  cases asked : i.log with
  | none => exact absurd (.plain asked) (stuck d)
  | some log =>
    cases written : d.write log (.text logStart) with
    | ok ready => exact absurd (.logged asked written) (stuck ready)
    | error cause =>
      simp only [run, asked, written]
      exact leavesNothing_of_failed d _

theorem remains_of_starts (starts : i.Starts d ready) : d.Remains ready := by
  cases starts with
  | plain _ => exact .refl d
  | logged _ written =>
    obtain ⟨p, writes⟩ := Directory.writes_of_write written
    exact .of_writes writes

end Invocation

/-- A command for a sequence whose log cannot be written leaves nothing. All others are all or
    nothing behind the log, with the snapshots at the steps of unbounded arithmetic. What is new
    behind the log was new before. -/
theorem sequence_is_all_or_nothing (i : Invocation) (d : Directory) (q : Request)
    (start stride count : Nat) (target : Target)
    (asked : i.task = .sequence q start stride count target) :
    ((∀ ready, ¬ i.Starts d ready) → LeavesNothing d (i.run d).1 (i.run d).2) ∧
    ∀ ready, i.Starts d ready →
      AllOrNothing ready i.file target (fun r place => r.snapshot q (start + place * stride)) count
        (i.run d).1 (i.run d).2 ∧
      ∀ path, ready.find? path = none → d.find? path = none := by
  refine ⟨Invocation.leavesNothing_of_not_starts, fun ready starts => ?_⟩
  rw [Invocation.run_of_starts starts, asked]
  refine ⟨allOrNothing_runTask ready i.file q start stride count target, fun path free => ?_⟩
  by_contra present
  have there := (Invocation.remains_of_starts starts).find?_isSome
    (Option.isSome_iff_ne_none.mpr present)
  rw [free] at there
  contradiction

def twoSteps : Directory :=
  ⟨[(["two.csv"], .file (.text "Mat,CV_64F,1\n0,5\n1,7\n"))]⟩

def twoTables (start stride : Nat) : Invocation where
  log := none
  file := "two.csv"
  task := .sequence {} start stride 2 { folder := some "out", format := .table }

theorem load_twoSteps : ∃ r, Recording.load twoSteps "two.csv" = .ok r ∧ r.steps = 2 := by
  have steps : (Recording.load twoSteps "two.csv").map Recording.steps = .ok 2 := by
    decide +kernel
  exact map_eq_ok steps

/-- Two new files, or nothing where the second step is beyond the recording, also where it is beyond
    the largest count. -/
theorem two_steps_are_all_or_nothing :
    (∃ paths, ((twoTables 0 1).run twoSteps).2.output = listing paths ∧ paths.length = 2 ∧
      paths.Nodup ∧ ∀ path ∈ paths, twoSteps.find? path = none) ∧
    ∀ stride ∈ [1, 18446744073709551615],
      LeavesNothing twoSteps ((twoTables 1 stride).run twoSteps).1
        ((twoTables 1 stride).run twoSteps).2 := by
  constructor
  · have fine : ((twoTables 0 1).run twoSteps).2.code = 0 := by
      decide +kernel
    obtain ⟨_, behind⟩ := sequence_is_all_or_nothing (twoTables 0 1) twoSteps {} 0 1 2 _ rfl
    obtain ⟨law, _⟩ := behind twoSteps (.plain rfl)
    obtain ⟨_, paths, _, printed, length, distinct, fresh, _⟩ := law.all "out" rfl fine
    exact ⟨paths, printed, length, distinct, fresh⟩
  · intro stride member
    obtain ⟨r, read, steps⟩ := load_twoSteps
    have late : r.steps ≤ 1 + 1 * stride := by
      have positive : 0 < stride := by
        revert stride
        decide
      omega
    obtain ⟨_, behind⟩ := sequence_is_all_or_nothing (twoTables 1 stride) twoSteps {} 1 stride 2 _ rfl
    obtain ⟨law, _⟩ := behind twoSteps (.plain rfl)
    exact law.nothing (.inr (.inl ⟨r, _, read, 1, Nat.one_lt_two,
      Recording.snapshotIn_of_late .snapshot late⟩))

end FieldPlot.Command
