import FieldPlot.Proofs.Paths
import FieldPlot.Proofs.Projectable
import Mathlib.Data.List.TakeWhile
import Mathlib.Tactic.SplitIfs

/-!
What operations do to a directory. Making a folder adds folders and nothing else; writing a file
changes the place that its path leads to and nothing else. A path leads to the same place as long as
the folders on its way stay.
-/
namespace FieldPlot.Directory

variable {d e next : Directory} {p q : Place}

/-- Places that are always folders: the root, the working folder and those above it. -/
def Fixed (p : Place) : Prop :=
  p = ["/"] ∨ p.all (· == "..") = true

instance : DecidablePred Fixed := fun _ => inferInstanceAs (Decidable (_ ∨ _))

theorem folder_of_fixed (fixed : Fixed p) : d.entry? p = some .folder :=
  if_pos fixed

theorem lookup_of_not_fixed (other : ¬ Fixed p) : d.entry? p = d.entries.lookup p :=
  if_neg other

theorem not_fixed_of_no_folder (none : d.entry? p ≠ some .folder) : ¬ Fixed p := fun fixed =>
  none (folder_of_fixed fixed)

theorem not_fixed_of_name {name : String} (named : Path.IsName name) (whole : '/' ∉ name.toList)
    (base : Place) : ¬ Fixed (base ++ [name]) := by
  rintro (root | back)
  · have same : base ++ [name] = [] ++ ["/"] := root
    obtain rfl := (List.cons.inj (List.append_inj' same rfl).2).1
    exact whole (by decide)
  · have last := List.all_eq_true.mp back name (List.mem_append_right _ List.mem_cons_self)
    exact named.notBack (eq_of_beq last)

theorem mem_keys_of_look {x : Entry} (other : ¬ Fixed p) (there : d.entry? p = some x) :
    p ∈ d.entries.map Prod.fst := by
  rw [lookup_of_not_fixed other] at there
  obtain ⟨before, behind, shape, _⟩ := List.lookup_eq_some_iff.mp there
  rw [shape]
  simp

theorem lookup_replace (entries : List (Place × Entry)) (p q : Place) (e : Entry) :
    (entries.map fun (k, old) => if k = p then (k, e) else (k, old)).lookup q =
      (entries.lookup q).map fun old => if q = p then e else old := by
  induction entries with
  | nil => rfl
  | cons head rest ih =>
    obtain ⟨k, old⟩ := head
    by_cases here : q = k
    · subst here
      by_cases same : q = p
      · simp [same]
      · simp [same]
    · have other : (q == k) = false := beq_eq_false_iff_ne.mpr here
      by_cases same : k = p
      · subst same
        simp only [List.map_cons, if_true, List.lookup_cons, other, ih]
      · simp only [List.map_cons, same, if_false, List.lookup_cons, other, ih]

theorem look_put (e : Entry) (other : ¬ Fixed p) (q : Place) :
    entry? (d.put p e) q = if q = p then some e else d.entry? q := by
  by_cases fixed : Fixed q
  · have apart : q ≠ p := fun same => other (same ▸ fixed)
    rw [folder_of_fixed fixed, if_neg apart, folder_of_fixed fixed]
  · rw [lookup_of_not_fixed fixed, lookup_of_not_fixed fixed, put]
    by_cases present : (d.entries.lookup p).isSome
    · rw [if_pos present, lookup_replace]
      by_cases same : q = p
      · obtain ⟨old, found⟩ := Option.isSome_iff_exists.mp present
        simp [same, found]
      · simp [same]
    · have none : d.entries.lookup p = none := Option.not_isSome_iff_eq_none.mp present
      rw [if_neg present, List.lookup_append]
      by_cases same : q = p
      · simp [same, none]
      · have apart : (q == p) = false := beq_eq_false_iff_ne.mpr same
        simp only [List.lookup_cons, apart, List.lookup_nil, Option.or_none, same, if_false]

def Keeps (d e : Directory) : Prop :=
  ∀ p x, d.entry? p = some x → e.entry? p = some x

def KeepsFolders (d e : Directory) : Prop :=
  ∀ p, d.entry? p = some .folder → e.entry? p = some .folder

theorem walk_append (d : Directory) (here : Place) (first second : List String) :
    d.walk here (first ++ second) = d.walk here first >>= fun p => d.walk p second := by
  induction first generalizing here with
  | nil => rfl
  | cons part first ih =>
    rw [List.cons_append, walk, walk]
    cases d.entry? here with
    | none => rfl
    | some x =>
      cases x with
      | file document => rfl
      | folder =>
        simp only
        split_ifs
        · exact ih here
        · exact ih (Path.back here)
        · rfl
        · exact ih (here ++ [part])

theorem walk_of_keepsFolders (keeps : d.KeepsFolders e) {here : Place} {parts : List String}
    (walked : d.walk here parts = .ok p) : e.walk here parts = .ok p := by
  induction parts generalizing here with
  | nil => exact walked
  | cons part parts ih =>
    rw [walk] at walked ⊢
    split at walked
    · contradiction
    · contradiction
    · rename_i folder
      rw [keeps here folder]
      simp only
      split_ifs at walked ⊢
      · exact ih walked
      · exact ih walked
      · exact ih walked

theorem Keeps.folders (keeps : d.Keeps e) : d.KeepsFolders e := fun p =>
  keeps p .folder

/-- Where a path leads, whether something is there or not. -/
def Leads (d : Directory) (path : String) (p : Place) : Prop :=
  Path.check path = .ok () ∧ d.walk (Path.start path).1 (Path.start path).2 = .ok p

variable {path : String} {x : Entry}

theorem find?_of_leads (leads : d.Leads path p) : d.find? path = d.entry? p := by
  obtain ⟨allowed, walked⟩ := leads
  rw [find?, allowed]
  simp only [follow?, walked]

theorem leads_of_found (found : d.find? path = some x) :
    ∃ p, d.Leads path p ∧ d.entry? p = some x := by
  rw [find?] at found
  cases allowed : Path.check path with
  | error cause => simp only [allowed] at found; contradiction
  | ok _ =>
    simp only [allowed, follow?] at found
    cases walked : d.walk (Path.start path).1 (Path.start path).2 with
    | error cause => simp only [walked] at found; contradiction
    | ok p =>
      simp only [walked] at found
      exact ⟨p, ⟨allowed, walked⟩, found⟩

theorem Leads.of_keepsFolders (leads : d.Leads path p) (keeps : d.KeepsFolders e) :
    e.Leads path p :=
  ⟨leads.1, walk_of_keepsFolders keeps leads.2⟩

theorem find?_of_keeps (keeps : d.Keeps e) (found : d.find? path = some x) :
    e.find? path = some x := by
  obtain ⟨p, leads, there⟩ := leads_of_found found
  rw [find?_of_leads (leads.of_keepsFolders keeps.folders)]
  exact keeps p x there

namespace Keeps

theorem refl (d : Directory) : d.Keeps d := fun _ _ there => there

theorem trans (first : d.Keeps e) (second : e.Keeps next) : d.Keeps next := fun p x there =>
  second p x (first p x there)

theorem free (keeps : d.Keeps e) (nothing : e.find? path = none) : d.find? path = none := by
  by_contra present
  obtain ⟨x, found⟩ := Option.ne_none_iff_exists'.mp present
  rw [find?_of_keeps keeps found] at nothing
  contradiction

end Keeps

def AddsFolders (d e : Directory) : Prop :=
  ∀ p, e.entry? p = d.entry? p ∨ d.entry? p = none ∧ e.entry? p = some .folder

namespace AddsFolders

theorem refl (d : Directory) : d.AddsFolders d := fun _ => .inl rfl

theorem trans (first : d.AddsFolders e) (second : e.AddsFolders next) : d.AddsFolders next := by
  intro p
  rcases second p with same | ⟨free, made⟩
  · rw [same]
    exact first p
  · rcases first p with same | ⟨_, made'⟩
    · exact .inr ⟨same ▸ free, made⟩
    · rw [made'] at free
      contradiction

theorem keeps (adds : d.AddsFolders e) : d.Keeps e := by
  intro p x there
  rcases adds p with same | ⟨free, _⟩
  · exact same.trans there
  · rw [free] at there
    contradiction

theorem file_iff (adds : d.AddsFolders e) (p : Place) (document : Document) :
    e.entry? p = some (.file document) ↔ d.entry? p = some (.file document) := by
  rcases adds p with same | ⟨free, made⟩
  · rw [same]
  · simp [free, made]

theorem of_put (free : d.entry? p = none) : d.AddsFolders (d.put p .folder) := by
  intro q
  have other : ¬ Fixed p := not_fixed_of_no_folder (d := d) (by simp [free])
  rw [look_put _ other]
  by_cases same : q = p
  · exact .inr ⟨same ▸ free, if_pos same⟩
  · exact .inl (if_neg same)

end AddsFolders

variable {here folder : Place} {parts before : List String} {last : String}

theorem makeLast_of_parent (named : Path.last? parts = some (before, last))
    (reached : d.parent here before = .ok folder) :
    d.makeLast here parts =
      if last = "." ∨ last = ".." then .error .exists
      else if Path.tooLong last then .error .longName
      else if (d.entry? (folder ++ [last])).isSome then .error .exists
      else .ok (d.put (folder ++ [last]) .folder) := by
  rw [makeLast, named]
  simp only [reached, bind, Except.bind]
  split_ifs <;> rfl

theorem put_of_makeLast (made : d.makeLast here parts = .ok next) :
    ∃ before last folder, Path.last? parts = some (before, last) ∧
      d.parent here before = .ok folder ∧ ¬ (last = "." ∨ last = "..") ∧
      Path.tooLong last = false ∧ d.entry? (folder ++ [last]) = none ∧
      next = d.put (folder ++ [last]) .folder := by
  cases named : Path.last? parts with
  | none =>
    rw [makeLast, named] at made
    contradiction
  | some split =>
    obtain ⟨before, last⟩ := split
    cases reached : d.parent here before with
    | error cause =>
      rw [makeLast, named] at made
      simp only [reached] at made
      contradiction
    | ok folder =>
      rw [makeLast_of_parent named reached] at made
      split_ifs at made with dots long there
      exact ⟨before, last, folder, rfl, reached, dots, Bool.eq_false_iff.mpr long,
        Option.not_isSome_iff_eq_none.mp there, (Except.ok.inj made).symm⟩

theorem addsFolders_of_makeLast (made : d.makeLast here parts = .ok next) :
    d.AddsFolders next := by
  obtain ⟨before, last, folder, _, _, _, _, free, rfl⟩ := put_of_makeLast made
  exact .of_put free

theorem addsFolders_of_ensureLast (made : d.ensureLast here parts = .ok next) :
    d.AddsFolders next := by
  rw [ensureLast] at made
  split at made
  · split_ifs at made with there
    obtain rfl := Except.ok.inj made
    exact .refl d
  · exact addsFolders_of_makeLast made

/-- Also where it is refused, making a folder leaves nothing but further folders. -/
theorem addsFolders_ensure (d : Directory) (here : Place) (parts : List String)
    (above : List (List String)) : d.AddsFolders (d.ensure here parts above).1 := by
  induction above generalizing parts with
  | nil =>
    unfold ensure
    split
    · rename_i made
      exact addsFolders_of_ensureLast made
    · contradiction
    · exact .refl d
  | cons nearest further ih =>
    unfold ensure
    split
    · rename_i made
      exact addsFolders_of_ensureLast made
    · rename_i same
      obtain ⟨rfl, rfl⟩ := List.cons.inj same
      have up := ih nearest
      split
      · rename_i made
        rw [made] at up
        exact up
      · rename_i made
        rw [made] at up
        split
        · rename_i last
          exact up.trans (addsFolders_of_ensureLast last)
        · exact up
    · exact .refl d

theorem addsFolders_makeFolder (d : Directory) (path : String) :
    d.AddsFolders (d.makeFolder path).1 := by
  rw [makeFolder]
  split_ifs
  · exact .refl d
  · cases Path.check path with
    | error cause => exact .refl d
    | ok _ => exact addsFolders_ensure d _ _ _

theorem addsFolders_of_makeFolder {answer : Except SystemFault Unit}
    (made : d.makeFolder path = (next, answer)) : d.AddsFolders next := by
  have adds := addsFolders_makeFolder d path
  rwa [made] at adds

theorem folder_of_walk {part : String} (walked : d.walk here (part :: parts) = .ok p) :
    d.entry? here = some .folder := by
  rw [walk] at walked
  split at walked
  · contradiction
  · contradiction
  · assumption

theorem walk_here (there : d.entry? here = some .folder) : d.walk here ["."] = .ok here := by
  rw [walk, there]
  rfl

theorem walk_name {name : String} (named : Path.IsName name) :
    d.walk here (name :: parts) = .ok p ↔
      d.entry? here = some .folder ∧ Path.tooLong name = false ∧
        d.walk (here ++ [name]) parts = .ok p := by
  have moves : Path.isStill name = false := by
    simp [Path.isStill, named.filled, named.notHere]
  constructor
  · intro walked
    have there := folder_of_walk walked
    rw [walk, there] at walked
    simp only [moves, named.notBack, if_false, Bool.false_eq_true] at walked
    split_ifs at walked with long
    exact ⟨there, Bool.eq_false_iff.mpr long, walked⟩
  · rintro ⟨there, short, walked⟩
    rw [walk, there]
    simpa [moves, named.notBack, short] using walked

/-- A path that ends in a name leads to this name in the folder that its other parts lead to. -/
theorem leads_iff_of_name {name : String} (allowed : Path.check path = .ok ())
    (cut : Path.parts path = before ++ [name]) (named : Path.IsName name) :
    d.Leads path p ↔ ∃ base, d.walk (Path.startOf before).1 (Path.startOf before).2 = .ok base ∧
      d.entry? base = some .folder ∧ Path.tooLong name = false ∧ p = base ++ [name] := by
  rw [Leads, Path.start_eq, cut, Path.startOf_append named.filled, walk_append]
  constructor
  · rintro ⟨_, walked⟩
    obtain ⟨base, reached, walked⟩ := bind_eq_ok walked
    obtain ⟨there, short, done⟩ := (walk_name named).mp walked
    exact ⟨base, reached, there, short, (Except.ok.inj done).symm⟩
  · rintro ⟨base, reached, there, short, rfl⟩
    refine ⟨allowed, ?_⟩
    rw [reached]
    exact (walk_name named).mpr ⟨there, short, rfl⟩

theorem parent_of_walk (reached : d.walk here before = .ok folder)
    (there : d.entry? folder = some .folder) : d.parent here before = .ok folder := by
  rw [parent, walk_append, reached]
  exact walk_here there

theorem walk_of_parent (reached : d.parent here before = .ok folder) :
    d.walk here before = .ok folder ∧ d.entry? folder = some .folder := by
  rw [parent, walk_append] at reached
  obtain ⟨base, walked, reached⟩ := bind_eq_ok reached
  have there := folder_of_walk reached
  rw [walk_here there] at reached
  obtain rfl := Except.ok.inj reached
  exact ⟨walked, there⟩

theorem filled_of_check (allowed : Path.check path = .ok ()) : path ≠ "" := by
  rintro rfl
  contradiction

theorem write_of_parent {document : Document} (allowed : Path.check path = .ok ())
    (named : Path.last? (Path.start path).2 = some (before, last))
    (reached : d.parent (Path.start path).1 before = .ok folder) :
    d.write path document =
      if last = "." ∨ last = ".." ∨ Path.endsInSlash path then .error .isFolder
      else if Path.tooLong last then .error .longName
      else if d.entry? (folder ++ [last]) = some .folder then .error .isFolder
      else .ok (d.put (folder ++ [last]) (.file document)) := by
  rw [write, allowed]
  simp only [named, reached, bind, Except.bind]
  cases d.entry? (folder ++ [last]) with
  | none =>
    simp only [reduceCtorEq, if_false]
    split_ifs <;> rfl
  | some x =>
    cases x with
    | folder =>
      simp only [if_true]
      split_ifs <;> rfl
    | file document =>
      simp only [Option.some.injEq, reduceCtorEq, if_false]
      split_ifs <;> rfl

/-- A file of this path can be written: its name stands in a folder that is there, and is not itself
    that of a folder. -/
structure Writable (d : Directory) (path : String) (before : List String) (last : String)
    (folder : Place) : Prop where
  allowed : Path.check path = .ok ()
  named : Path.last? (Path.start path).2 = some (before, last)
  reached : d.parent (Path.start path).1 before = .ok folder
  isName : ¬ (last = "." ∨ last = ".." ∨ Path.endsInSlash path)
  short : Path.tooLong last = false
  noFolder : d.entry? (folder ++ [last]) ≠ some .folder

theorem write_eq_ok_iff {document : Document} : d.write path document = .ok next ↔
    ∃ before last folder, Writable d path before last folder ∧
      next = d.put (folder ++ [last]) (.file document) := by
  constructor
  · intro done
    cases allowed : Path.check path with
    | error cause =>
      rw [write, allowed] at done
      contradiction
    | ok _ =>
      cases named : Path.last? (Path.start path).2 with
      | none =>
        rw [write, allowed] at done
        simp only [named] at done
        contradiction
      | some split =>
        obtain ⟨before, last⟩ := split
        cases reached : d.parent (Path.start path).1 before with
        | error cause =>
          rw [write, allowed] at done
          simp only [named, reached] at done
          contradiction
        | ok folder =>
          rw [write_of_parent allowed named reached] at done
          split_ifs at done with dots long there
          exact ⟨before, last, folder,
            ⟨allowed, named, reached, dots, Bool.eq_false_iff.mpr long, there⟩,
            (Except.ok.inj done).symm⟩
  · rintro ⟨before, last, folder, writable, rfl⟩
    rw [write_of_parent writable.allowed writable.named writable.reached, if_neg writable.isName,
      if_neg (Bool.eq_false_iff.mp writable.short), if_neg writable.noFolder]

theorem Writable.leads (writable : d.Writable path before last folder) :
    d.Leads path (folder ++ [last]) := by
  obtain ⟨allowed, named, reached, isName, short, _⟩ := writable
  simp only [not_or, Bool.not_eq_true] at isName
  obtain ⟨notHere, notBack, ends⟩ := isName
  obtain ⟨walked, base⟩ := walk_of_parent reached
  -- Without a slash at the end the parts are those before the name and the name.
  obtain ⟨front, name, cut, filled⟩ := Path.parts_of_not_endsInSlash (filled_of_check allowed) ends
  rw [Path.start_eq, cut, Path.startOf_append filled, Path.last?_append filled] at named
  obtain ⟨rfl, rfl⟩ := Prod.mk.inj (Option.some.inj named)
  rw [leads_iff_of_name allowed cut ⟨filled, notHere, notBack⟩]
  rw [Path.start_eq, cut, Path.startOf_append filled] at walked
  exact ⟨folder, walked, base, short, rfl⟩

/-- What can be written can be written with more folders around, as long as the path is free. -/
theorem write_of_free {document : Document} (other : Document)
    (done : d.write path document = .ok next) (keeps : d.KeepsFolders e)
    (free : e.find? path = none) :
    ∃ last, e.write path other = .ok last := by
  obtain ⟨before, last, folder, writable, rfl⟩ := write_eq_ok_iff.mp done
  have nothing : e.entry? (folder ++ [last]) = none :=
    (find?_of_leads (writable.leads.of_keepsFolders keeps)).symm.trans free
  exact ⟨_, write_eq_ok_iff.mpr ⟨before, last, folder,
    { writable with
      reached := walk_of_keepsFolders keeps writable.reached
      noFolder := by simp [nothing] }, rfl⟩⟩

theorem put_of_write {document : Document} (done : d.write path document = .ok next) :
    ∃ p, d.Leads path p ∧ d.entry? p ≠ some .folder ∧ next = d.put p (.file document) := by
  obtain ⟨before, last, folder, writable, rfl⟩ := write_eq_ok_iff.mp done
  exact ⟨folder ++ [last], writable.leads, writable.noFolder, rfl⟩

structure Writes (d : Directory) (path : String) (document : Document) (next : Directory)
    (p : Place) : Prop where
  leads : next.Leads path p
  found : d.find? path = d.entry? p
  noFolder : d.entry? p ≠ some .folder
  look : ∀ q, next.entry? q = if q = p then some (.file document) else d.entry? q

theorem writes_of_write {document : Document} (done : d.write path document = .ok next) :
    ∃ p, d.Writes path document next p := by
  obtain ⟨p, leads, noFolder, rfl⟩ := put_of_write done
  have look := look_put (d := d) (.file document) (not_fixed_of_no_folder noFolder)
  refine ⟨p, leads.of_keepsFolders fun q there => ?_, find?_of_leads leads, noFolder, look⟩
  rw [look, if_neg]
  · exact there
  · rintro rfl
    exact noFolder there

namespace Writes

variable {document : Document}

theorem find?_eq (writes : d.Writes path document next p) :
    next.find? path = some (.file document) := by
  rw [find?_of_leads writes.leads, writes.look, if_pos rfl]

theorem keeps (writes : d.Writes path document next p) (free : d.find? path = none) :
    d.Keeps next := by
  intro q x there
  rw [writes.look, if_neg]
  · exact there
  · rintro rfl
    rw [← writes.found, free] at there
    contradiction

theorem file_iff (writes : d.Writes path document next p) (free : d.find? path = none)
    (q : Place) (other : Document) :
    next.entry? q = some (.file other) ↔
      d.entry? q = some (.file other) ∨ q = p ∧ other = document := by
  have nothing : d.entry? p = none := writes.found.symm.trans free
  rw [writes.look]
  by_cases same : q = p
  · simp [same, nothing, eq_comm]
  · simp [same]

/-- Writing a file neither makes folders nor removes any, so all paths lead where they led. -/
theorem leads_iff (writes : d.Writes path document next p) {other : String} :
    next.Leads other q ↔ d.Leads other q := by
  constructor
  · refine fun leads => leads.of_keepsFolders fun r there => ?_
    rw [writes.look] at there
    split_ifs at there
    · cases there
    · exact there
  · refine fun leads => leads.of_keepsFolders fun r there => ?_
    rw [writes.look, if_neg]
    · exact there
    · rintro rfl
      exact writes.noFolder there

theorem find?_of_elsewhere (writes : d.Writes path document next p) {other : String}
    (elsewhere : ¬ d.Leads other p) : next.find? other = d.find? other := by
  have found (q : Place) (leads : d.Leads other q) : next.find? other = d.find? other := by
    rw [find?_of_leads leads, find?_of_leads (writes.leads_iff.mpr leads), writes.look, if_neg]
    rintro rfl
    exact elsewhere leads
  cases there : next.find? other with
  | some x =>
    obtain ⟨q, leads, _⟩ := leads_of_found there
    rw [← there]
    exact found q (writes.leads_iff.mp leads)
  | none =>
    cases before : d.find? other with
    | none => rfl
    | some x =>
      obtain ⟨q, leads, _⟩ := leads_of_found before
      rw [← there, ← before]
      exact found q leads

end Writes

/-- Whatever is in the one directory, a folder or a file, is so in the other; files may have other
    contents. -/
structure Remains (d e : Directory) : Prop where
  folders : d.KeepsFolders e
  entries : ∀ p, (d.entry? p).isSome → (e.entry? p).isSome

namespace Remains

theorem refl (d : Directory) : d.Remains d :=
  ⟨fun _ there => there, fun _ there => there⟩

theorem trans (first : d.Remains e) (second : e.Remains next) : d.Remains next :=
  ⟨fun p there => second.folders p (first.folders p there),
    fun p there => second.entries p (first.entries p there)⟩

theorem of_keeps (keeps : d.Keeps e) : d.Remains e where
  folders := keeps.folders
  entries := by
    intro p there
    obtain ⟨x, there⟩ := Option.isSome_iff_exists.mp there
    rw [keeps p x there]
    rfl

theorem of_writes {document : Document} (writes : d.Writes path document next p) :
    d.Remains next where
  folders := by
    intro q there
    rw [writes.look, if_neg]
    · exact there
    · rintro rfl
      exact writes.noFolder there
  entries := by
    intro q there
    rw [writes.look]
    split_ifs
    · rfl
    · exact there

theorem find?_isSome (remains : d.Remains e) (found : (d.find? path).isSome) :
    (e.find? path).isSome := by
  obtain ⟨x, found⟩ := Option.isSome_iff_exists.mp found
  obtain ⟨p, leads, there⟩ := leads_of_found found
  rw [find?_of_leads (leads.of_keepsFolders remains.folders)]
  exact remains.entries p (Option.isSome_of_eq_some there)

end Remains

theorem parts_of_last? (named : Path.last? parts = some (before, last)) :
    ∃ blanks, parts = before ++ last :: blanks ∧ last ≠ "" ∧ ∀ blank ∈ blanks, blank = "" := by
  rw [Path.last?] at named
  split at named
  · contradiction
  · rename_i name front shape
    obtain ⟨rfl, rfl⟩ := Prod.mk.inj (Option.some.inj named)
    have filled := List.head?_dropWhile_not (· == "") parts.reverse
    rw [shape] at filled
    refine ⟨(parts.reverse.takeWhile (· == "")).reverse, ?_, by simpa using filled, ?_⟩
    · have whole := List.takeWhile_append_dropWhile (p := (· == "")) (l := parts.reverse)
      rw [shape] at whole
      calc
        parts = parts.reverse.reverse := (List.reverse_reverse parts).symm
        _ = (parts.reverse.takeWhile (· == "") ++ name :: front).reverse := by rw [whole]
        _ = front.reverse ++ name :: (parts.reverse.takeWhile (· == "")).reverse := by simp
    · intro blank member
      exact eq_of_beq (List.mem_takeWhile_imp (p := (· == "")) (List.mem_reverse.mp member))

theorem makeLast_of_folder (walked : d.walk here parts = .ok p)
    (there : d.entry? p = some .folder) : d.makeLast here parts = .error .exists := by
  cases named : Path.last? parts with
  | none =>
    rw [makeLast, named]
    rfl
  | some split =>
    obtain ⟨before, last⟩ := split
    obtain ⟨blanks, rfl, filled, _⟩ := parts_of_last? named
    rw [walk_append] at walked
    obtain ⟨base, reached, walked⟩ := bind_eq_ok walked
    rw [makeLast_of_parent named (parent_of_walk reached (folder_of_walk walked))]
    split_ifs with dots long taken
    · rfl
    · rw [not_or] at dots
      obtain ⟨_, short, _⟩ := (walk_name ⟨filled, dots.1, dots.2⟩).mp walked
      rw [short] at long
      contradiction
    · rfl
    · rw [not_or] at dots
      obtain ⟨_, _, further⟩ := (walk_name ⟨filled, dots.1, dots.2⟩).mp walked
      -- What follows the last name stays there, so that the name is a folder.
      have folder : d.entry? (base ++ [last]) = some .folder := by
        cases blanks with
        | nil =>
          obtain rfl := Except.ok.inj further
          exact there
        | cons blank blanks => exact folder_of_walk further
      rw [folder] at taken
      contradiction

theorem makeFolder_of_folder (there : d.find? path = some .folder) :
    d.makeFolder path = (d, .ok ()) := by
  obtain ⟨p, ⟨allowed, walked⟩, folder⟩ := leads_of_found there
  have ensured : d.ensureLast (Path.start path).1 (Path.start path).2 = .ok d := by
    rw [ensureLast, makeLast_of_folder walked folder]
    simp only [follow?, walked, folder, if_true]
  rw [makeFolder, if_neg (filled_of_check allowed), allowed]
  simp only
  unfold ensure
  rw [ensured]

theorem walk_blanks (there : d.entry? here = some .folder) (blanks : ∀ blank ∈ parts, blank = "") :
    d.walk here parts = .ok here := by
  induction parts with
  | nil => rfl
  | cons blank parts ih =>
    obtain ⟨rfl, further⟩ := List.forall_mem_cons.mp blanks
    rw [walk, there]
    exact ih further

theorem follow?_of_makeLast (made : d.makeLast here parts = .ok next) :
    next.follow? here parts = some .folder := by
  obtain ⟨before, last, folder, named, reached, dots, short, free, rfl⟩ := put_of_makeLast made
  obtain ⟨blanks, rfl, filled, empty⟩ := parts_of_last? named
  rw [not_or] at dots
  obtain ⟨walked, there⟩ := walk_of_parent reached
  have adds : d.AddsFolders (d.put (folder ++ [last]) .folder) := .of_put free
  have put : entry? (d.put (folder ++ [last]) .folder) (folder ++ [last]) = some .folder := by
    rw [look_put _ (not_fixed_of_no_folder (d := d) (by simp [free])), if_pos rfl]
  have still : (d.put (folder ++ [last]) .folder).walk here (before ++ last :: blanks) =
      .ok (folder ++ [last]) := by
    rw [walk_append, walk_of_keepsFolders adds.keeps.folders walked]
    exact (walk_name ⟨filled, dots.1, dots.2⟩).mpr
      ⟨adds.keeps.folders _ there, short, walk_blanks put empty⟩
  rw [follow?, still]
  exact put

theorem follow?_of_ensureLast (made : d.ensureLast here parts = .ok next) :
    next.follow? here parts = some .folder := by
  rw [ensureLast] at made
  split at made
  · split_ifs at made with there
    obtain rfl := Except.ok.inj made
    exact there
  · exact follow?_of_makeLast made

theorem follow?_of_ensure {above : List (List String)}
    (made : d.ensure here parts above = (next, .ok ())) :
    next.follow? here parts = some .folder := by
  unfold ensure at made
  split at made
  · rename_i ensured
    obtain ⟨rfl, _⟩ := Prod.mk.inj made
    exact follow?_of_ensureLast ensured
  · split at made
    · cases made
    · split at made
      · rename_i ensured
        obtain ⟨rfl, _⟩ := Prod.mk.inj made
        exact follow?_of_ensureLast ensured
      · cases made
  · cases made

/-- What is made as a folder is there. The empty path is the working folder and found nowhere. -/
theorem find?_of_makeFolder (made : d.makeFolder path = (next, .ok ())) (filled : path ≠ "") :
    next.find? path = some .folder := by
  rw [makeFolder, if_neg filled] at made
  cases allowed : Path.check path with
  | error cause =>
    rw [allowed] at made
    cases made
  | ok _ =>
    rw [allowed] at made
    rw [find?, allowed]
    exact follow?_of_ensure made

/-- Nothing has to be made for this folder. -/
def Stands (d : Directory) (path : String) : Prop :=
  d.makeFolder path = (d, .ok ())

theorem stands_of_makeFolder (made : d.makeFolder path = (next, .ok ()))
    (keeps : next.KeepsFolders e) : e.Stands path := by
  by_cases empty : path = ""
  · rw [Stands, makeFolder, if_pos empty]
  · obtain ⟨p, leads, there⟩ := leads_of_found (find?_of_makeFolder made empty)
    refine makeFolder_of_folder ?_
    rw [find?_of_leads (leads.of_keepsFolders keeps)]
    exact keeps p there

end FieldPlot.Directory
