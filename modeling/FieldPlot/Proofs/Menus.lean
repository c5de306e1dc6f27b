import FieldPlot.Proofs.Offers

/-!
The order of the menu. Showing the data as recorded comes first, then the single axes by number, then
the pairs by the smaller of their numbers and, where that is the same, by the first text that is read
as the pair. Since nothing is offered twice, this order and what is offered determine the list. From
the texts of all candidates of some rank, those of the smaller rank are offered as they are listed.
-/
namespace FieldPlot.Selection

/-- The smallest number of an axis that the selection keeps. No axis has the number zero. -/
def leastNumber : Selection → Nat
  | unprojected => 0
  | single a => a.number
  | pair a b => min a.number b.number

/-- By the smallest number and, where that is the same, by place. -/
def Precedes (place : Selection → Nat) (s t : Selection) : Prop :=
  s.leastNumber < t.leastNumber ∨ s.leastNumber = t.leastNumber ∧ place s < place t

/-- By the number of axes that are kept, and then as above. -/
def Stands (place : Selection → Nat) (s t : Selection) : Prop :=
  s.axisCount < t.axisCount ∨ s.axisCount = t.axisCount ∧ Precedes place s t

def firstPlace (texts : List String) (s : Selection) : Nat :=
  texts.findIdx fun t => (read t.toList).toOption = some s

section Order

variable {place : Selection → Nat} {s t : Selection}

theorem not_precedes_self : ¬ Precedes place s s := by
  unfold Precedes
  omega

theorem not_stands_self : ¬ Stands place s s := by
  unfold Stands Precedes
  omega

theorem nodup_of_stands {selections : List Selection} (ordered : selections.Pairwise (Stands place)) :
    selections.Nodup := by
  apply ordered.imp
  intro s t stands same
  subst same
  exact not_stands_self stands

end Order

section Collecting

variable {rank number : Nat} {parsed : List Selection} {s : Selection}

theorem leastNumber_le (names : Names rank number s) : s.leastNumber ≤ number := by
  cases s with
  | unprojected => exact names.elim
  | single a => exact Nat.le_of_eq names
  | pair a b =>
    simp only [Names, leastNumber] at names ⊢
    omega

theorem leastNumber_pos (names : Names rank number s) : 0 < s.leastNumber := by
  cases s with
  | unprojected => exact names.elim
  | single a => exact Nat.succ_pos _
  | pair a b =>
    simp only [leastNumber, Axis.number]
    omega

/-- A selection with a number is already found at the smallest of its numbers. -/
theorem names_leastNumber (names : Names rank number s) : Names rank s.leastNumber s := by
  cases s with
  | unprojected => exact names.elim
  | single a => rfl
  | pair a b =>
    simp only [Names, leastNumber] at names ⊢
    omega

theorem leastNumber_of_new (member : s ∈ parsed) (names : Names rank number s)
    (new : s ∉ (List.range number).foldl (takeNumber rank parsed) [unprojected]) :
    s.leastNumber = number := by
  by_contra other
  apply new
  rw [mem_takeNumbers]
  have earlier : s.leastNumber < number := by
    have := leastNumber_le names
    omega
  exact Or.inr ⟨member, s.leastNumber, List.mem_range.mpr earlier, names_leastNumber names⟩

theorem leastNumber_lt_of_taken {n : Nat} (positive : 0 < n)
    (taken : s ∈ (List.range n).foldl (takeNumber rank parsed) [unprojected]) :
    s.leastNumber < n := by
  rcases mem_takeNumbers.mp taken with recorded | ⟨_, number, below, names⟩
  · rw [List.mem_singleton.mp recorded]
    exact positive
  · exact Nat.lt_of_le_of_lt (leastNumber_le names) (List.mem_range.mp below)

theorem pairwise_insertNew {r : Selection → Selection → Prop} {chosen : List Selection}
    (ordered : chosen.Pairwise r) (behind : s ∉ chosen → ∀ c ∈ chosen, r c s) :
    (insertNew chosen s).Pairwise r := by
  unfold insertNew
  split
  · exact ordered
  · rename_i new
    rw [List.pairwise_append]
    refine ⟨ordered, List.pairwise_singleton r s, ?_⟩
    intro c old t last
    rw [List.mem_singleton.mp last]
    exact behind new c old

/-- Each selection that is added comes behind those chosen before and behind those added before. -/
theorem pairwise_foldl_insertNew {r : Selection → Selection → Prop} {chosen added : List Selection}
    (ordered : chosen.Pairwise r) (behind : ∀ s ∈ added, s ∉ chosen → ∀ c ∈ chosen, r c s)
    (inside : ∀ before s after, added = before ++ s :: after → s ∉ chosen → s ∉ before →
      ∀ c ∈ before, r c s) :
    (added.foldl insertNew chosen).Pairwise r := by
  -- Induction from the end: the last one is new only if it is not among all the others.
  induction added using List.reverseRecOn with
  | nil => exact ordered
  | append_singleton before s ih =>
    rw [List.foldl_append, List.foldl_cons, List.foldl_nil]
    apply pairwise_insertNew
    · apply ih
      · intro t member
        exact behind t (List.mem_append_left _ member)
      · intro front t after split
        exact inside front t (after ++ [s]) (by rw [split, List.append_assoc, List.cons_append])
    · intro new c member
      rw [mem_foldl_insertNew, not_or] at new
      rcases mem_foldl_insertNew.mp member with old | added
      · exact behind s (by simp) new.1 c old
      · exact inside before s [] rfl new.1 new.2 c added

theorem idxOf_lt_of_filter {p : Selection → Bool} {before after : List Selection} {c : Selection}
    (split : parsed.filter p = before ++ s :: after) (new : s ∉ before) (old : c ∈ before) :
    parsed.idxOf c < parsed.idxOf s := by
  obtain ⟨front, rest, rfl, rfl, found⟩ := List.filter_eq_append_iff.mp split
  obtain ⟨skipped, behind, rfl, dropped, holds, -⟩ := List.filter_eq_cons_iff.mp found
  have inFront : c ∈ front := List.mem_of_mem_filter old
  have notInFront : s ∉ front := by
    intro member
    exact new (List.mem_filter.mpr ⟨member, holds⟩)
  rw [List.idxOf_append_of_mem inFront, List.idxOf_append_of_notMem notInFront]
  exact Nat.lt_add_right _ (List.idxOf_lt_length_of_mem inFront)

theorem pairwise_takeNumbers (rank n : Nat) (parsed : List Selection) :
    ((List.range n).foldl (takeNumber rank parsed) [unprojected]).Pairwise
      (Precedes parsed.idxOf) := by
  induction n with
  | zero => exact List.pairwise_singleton _ _
  | succ n ih =>
    rw [List.range_succ, List.foldl_append, List.foldl_cons, List.foldl_nil]
    apply pairwise_foldl_insertNew ih
    · intro s member new c old
      obtain ⟨listed, names⟩ := List.mem_filter.mp member
      rw [decide_eq_true_eq] at names
      have least := leastNumber_of_new listed names new
      have positive := leastNumber_pos names
      have below := leastNumber_lt_of_taken (by omega) old
      exact Or.inl (by omega)
    · intro before s after split new first c old
      have members : ∀ t ∈ before ++ s :: after, t ∈ parsed ∧ Names rank n t := by
        intro t member
        rw [← split, List.mem_filter, decide_eq_true_eq] at member
        exact member
      obtain ⟨listed, names⟩ := members s (by simp)
      have least := leastNumber_of_new listed names new
      have below := leastNumber_le (members c (List.mem_append_left _ old)).2
      by_cases same : c.leastNumber = s.leastNumber
      · exact Or.inr ⟨same, idxOf_lt_of_filter split first old⟩
      · exact Or.inl (by omega)

theorem pairwise_collect (rank : Nat) (parsed : List Selection) :
    (collect rank parsed).Pairwise (Precedes parsed.idxOf) :=
  pairwise_takeNumbers rank (rank + 1) parsed

end Collecting

section Arranging

variable {place : Selection → Nat} {selections : List Selection}

theorem axisCount_of_mem_filter {n : Nat} {s : Selection}
    (member : s ∈ selections.filter fun s => s.axisCount = n) : s.axisCount = n :=
  of_decide_eq_true (List.mem_filter.mp member).2

theorem pairwise_arrange (ordered : selections.Pairwise (Precedes place)) :
    (arrange selections).Pairwise (Stands place) := by
  have block : ∀ n, (selections.filter fun s => s.axisCount = n).Pairwise (Stands place) := by
    intro n
    apply (ordered.filter _).imp_of_mem
    intro s t left right precedes
    have same := (axisCount_of_mem_filter left).trans (axisCount_of_mem_filter right).symm
    exact Or.inr ⟨same, precedes⟩
  have blocks : ∀ n m, n < m → ∀ s ∈ selections.filter (fun s => s.axisCount = n),
      ∀ t ∈ selections.filter (fun s => s.axisCount = m), Stands place s t := by
    intro n m less s left t right
    have first := axisCount_of_mem_filter left
    have second := axisCount_of_mem_filter right
    exact Or.inl (by omega)
  unfold arrange
  rw [List.pairwise_append, List.pairwise_append]
  refine ⟨⟨block 0, block 1, blocks 0 1 (by decide)⟩, block 2, ?_⟩
  intro s left t right
  rcases List.mem_append.mp left with none | one
  · exact blocks 0 2 (by decide) s none t right
  · exact blocks 1 2 (by decide) s one t right

theorem filter_unprojected (ordered : selections.Pairwise (Precedes place))
    (recorded : unprojected ∈ selections) :
    (selections.filter fun s => s.axisCount = 0) = [unprojected] := by
  have only : ∀ s ∈ selections.filter (fun s => s.axisCount = 0), s = unprojected := by
    intro s member
    have none := axisCount_of_mem_filter member
    cases s with
    | unprojected => rfl
    | single a => contradiction
    | pair a b => contradiction
  have found : unprojected ∈ selections.filter fun s => s.axisCount = 0 :=
    List.mem_filter.mpr ⟨recorded, rfl⟩
  have sorted := ordered.filter fun s => s.axisCount = 0
  cases shape : selections.filter fun s => s.axisCount = 0 with
  | nil =>
    rw [shape] at found
    contradiction
  | cons s others =>
    rw [shape] at only sorted
    cases others with
    | nil => rw [only s List.mem_cons_self]
    | cons t others =>
      have twice := (List.pairwise_cons.mp sorted).1 t List.mem_cons_self
      rw [only s (by simp), only t (by simp)] at twice
      exact absurd twice not_precedes_self

theorem arrange_eq (ordered : selections.Pairwise (Precedes place))
    (recorded : unprojected ∈ selections) :
    arrange selections = unprojected :: ((selections.filter fun s => s.axisCount = 1) ++
      selections.filter fun s => s.axisCount = 2) := by
  unfold arrange
  rw [filter_unprojected ordered recorded, List.append_assoc]
  rfl

end Arranging

section Offered

variable {rank n : Nat} {texts : List String} {s : Selection}

theorem findIdx_lt_of_parsed {parse : String → Option Selection} {s t : Selection}
    (earlier : (texts.filterMap parse).idxOf s < (texts.filterMap parse).idxOf t) :
    (texts.findIdx fun x => parse x = some s) < texts.findIdx fun x => parse x = some t := by
  induction texts with
  | nil => simp at earlier
  | cons text texts ih =>
    rw [List.findIdx_cons, List.findIdx_cons]
    cases found : parse text with
    | none =>
      rw [List.filterMap_cons_none found] at earlier
      exact Nat.succ_lt_succ (ih earlier)
    | some u =>
      rw [List.filterMap_cons_some found, List.idxOf_cons, List.idxOf_cons] at earlier
      by_cases other : u = t
      · simp [other] at earlier
      · by_cases same : u = s
        · simp [same, same ▸ other]
        · simp only [beq_eq_false_iff_ne.mpr same, beq_eq_false_iff_ne.mpr other, cond_false] at earlier
          simp only [Option.some.injEq, same, other, decide_false, cond_false]
          exact Nat.succ_lt_succ (ih (Nat.lt_of_succ_lt_succ earlier))

theorem pairwise_collect_parsed (rank : Nat) (texts : List String) :
    (collect rank (parsed texts)).Pairwise (Precedes (firstPlace texts)) := by
  apply (pairwise_collect rank (parsed texts)).imp
  intro s t precedes
  exact precedes.imp_right fun tie => ⟨tie.1, findIdx_lt_of_parsed tie.2⟩

theorem mem_kept (some : n ≠ 0) :
    s ∈ (collect rank (parsed texts)).filter (fun s => s.axisCount = n) ↔
      s.axisCount = n ∧ s.Within rank ∧ ∃ t ∈ texts, read t.toList = .ok s := by
  rw [List.mem_filter, mem_collect, mem_parsed, decide_eq_true_eq]
  constructor
  · rintro ⟨rfl | ⟨_, named⟩, count⟩
    · exact absurd count.symm some
    · exact ⟨count, named⟩
  · intro ⟨count, named⟩
    refine ⟨Or.inr ⟨?_, named⟩, count⟩
    intro recorded
    subst recorded
    exact some count.symm

theorem single_mem_kept {a : Axis} :
    single a ∈ (collect rank (parsed texts)).filter (fun s => s.axisCount = 1) ↔
      a.number ≤ rank ∧ ∃ t ∈ texts, read t.toList = .ok (single a) := by
  rw [mem_kept (show 1 ≠ 0 by decide), within_single]
  exact and_iff_right rfl

theorem pair_mem_kept {a b : Axis} :
    pair a b ∈ (collect rank (parsed texts)).filter (fun s => s.axisCount = 2) ↔
      a.number ≤ rank ∧ b.number ≤ rank ∧ ∃ t ∈ texts, read t.toList = .ok (pair a b) := by
  rw [mem_kept (show 2 ≠ 0 by decide), within_pair, and_assoc]
  exact and_iff_right rfl

theorem exists_single_of_axisCount (one : s.axisCount = 1) : ∃ a, single a = s := by
  cases s with
  | unprojected => exact absurd one (by decide)
  | single a => exact ⟨a, rfl⟩
  | pair a b => exact absurd one (by decide : ¬ 2 = 1)

theorem exists_pair_of_axisCount (two : s.axisCount = 2) : ∃ p : Axis × Axis, pair p.1 p.2 = s := by
  cases s with
  | unprojected => exact absurd two (by decide)
  | single a => exact absurd two (by decide : ¬ 1 = 2)
  | pair a b => exact ⟨(a, b), rfl⟩

theorem exists_kept {α : Type} {make : α → Selection}
    (made : ∀ s : Selection, s.axisCount = n → ∃ x, make x = s) (rank : Nat) (texts : List String) :
    ∃ kept : List α, kept.map make =
      (collect rank (parsed texts)).filter fun s => s.axisCount = n := by
  have each : (collect rank (parsed texts)).filter (fun s => s.axisCount = n) ∈
      Set.range (List.map make) := by
    rw [Set.range_list_map]
    intro s member
    exact made s (axisCount_of_mem_filter member)
  exact each

theorem number_lt_of_precedes {place : Selection → Nat} {a b : Axis}
    (precedes : Precedes place (single a) (single b)) : a.number < b.number := by
  rcases precedes with less | ⟨same, tie⟩
  · exact less
  · have equal : a = b := by
      cases a
      cases b
      exact congrArg Axis.mk (Nat.succ.inj same)
    rw [equal] at tie
    exact absurd tie (Nat.lt_irrefl _)

/-- What is offered is showing the data as recorded, then every single axis of the data that one of the
    texts names, in the order of the axes, then every pair of axes of the data that one of the texts
    names, ordered by the smaller number of the two and then by the first text that names the pair.
    Nothing is offered twice. -/
theorem offered_are_named_in_order (rank : Nat) (texts : List String) :
    ∃ (singles : List Axis) (pairs : List (Axis × Axis)),
      offered rank texts =
        unprojected :: (singles.map single ++ pairs.map fun p => pair p.1 p.2) ∧
      (∀ a, a ∈ singles ↔ a.number ≤ rank ∧ ∃ t ∈ texts, read t.toList = .ok (single a)) ∧
      singles.Pairwise (fun a b => a.number < b.number) ∧
      (∀ a b, (a, b) ∈ pairs ↔
        a.number ≤ rank ∧ b.number ≤ rank ∧ ∃ t ∈ texts, read t.toList = .ok (pair a b)) ∧
      pairs.Pairwise (fun p q => Precedes (firstPlace texts) (pair p.1 p.2) (pair q.1 q.2)) ∧
      (offered rank texts).Nodup := by
  have ordered := pairwise_collect_parsed rank texts
  have recorded : unprojected ∈ collect rank (parsed texts) := mem_collect.mpr (Or.inl rfl)
  obtain ⟨singles, ones⟩ := exists_kept (fun _ => exists_single_of_axisCount) rank texts
  obtain ⟨pairs, twos⟩ := exists_kept (fun _ => exists_pair_of_axisCount) rank texts
  refine ⟨singles, pairs, ?_, ?_, ?_, ?_, ?_, nodup_of_stands (pairwise_arrange ordered)⟩
  · rw [ones, twos, offered_eq, arrange_eq ordered recorded]
  · intro a
    rw [← single_mem_kept, ← ones, List.mem_map_of_injective fun _ _ => single.inj]
  · have sorted := ordered.filter fun s => s.axisCount = 1
    rw [← ones, List.pairwise_map] at sorted
    apply sorted.imp
    intro a b precedes
    exact number_lt_of_precedes precedes
  · intro a b
    rw [← pair_mem_kept, ← twos]
    constructor
    · exact List.mem_map_of_mem
    · intro member
      obtain ⟨p, listed, same⟩ := List.mem_map.mp member
      obtain ⟨rfl, rfl⟩ := pair.inj same
      exact listed
  · have sorted := ordered.filter fun s => s.axisCount = 2
    rwa [← twos, List.pairwise_map] at sorted

end Offered

section Candidates

variable {rank most : Nat} {s t : Selection}

def Earlier : Selection → Selection → Prop
  | unprojected, single _ => True
  | unprojected, pair _ _ => True
  | single a, single b => a.index < b.index
  | single _, pair _ _ => True
  | pair a b, pair c d => a.index < c.index ∨ a.index = c.index ∧ b.index < d.index
  | _, _ => False

theorem earlier_asymm (earlier : Earlier s t) : ¬ Earlier t s := by
  cases s <;> cases t <;> simp [Earlier] at earlier ⊢ <;> omega

theorem nodup_of_earlier {selections : List Selection} (ordered : selections.Pairwise Earlier) :
    selections.Nodup := by
  apply ordered.imp
  intro s t earlier same
  subst same
  exact earlier_asymm earlier earlier

/-- What is listed determines a list in this order. -/
theorem eq_of_earlier {xs ys : List Selection} (left : xs.Pairwise Earlier)
    (right : ys.Pairwise Earlier) (same : ∀ s, s ∈ xs ↔ s ∈ ys) : xs = ys := by
  apply List.Perm.eq_of_pairwise ?_ left right
  · exact (List.perm_ext_iff_of_nodup (nodup_of_earlier left) (nodup_of_earlier right)).mpr same
  · intro s t _ _ forth back
    exact absurd back (earlier_asymm forth)

theorem unprojected_not_mem (rank : Nat) : unprojected ∉ candidates rank := by
  intro member
  rcases mem_candidates.mp member with ⟨a, same, _⟩ | ⟨a, b, same, _⟩
  · contradiction
  · contradiction

theorem pairwise_candidates (rank : Nat) : (candidates rank).Pairwise Earlier := by
  unfold candidates
  rw [List.pairwise_append, List.pairwise_map, List.pairwise_flatMap]
  refine ⟨List.pairwise_lt_range, ⟨?_, ?_⟩, ?_⟩
  · intro a _
    rw [List.pairwise_map]
    apply List.pairwise_lt_range.imp
    intro k l less
    exact Or.inr ⟨rfl, Nat.add_lt_add_left less _⟩
  · apply List.pairwise_lt_range.imp
    intro a b less s first t second
    obtain ⟨k, _, rfl⟩ := List.mem_map.mp first
    obtain ⟨l, _, rfl⟩ := List.mem_map.mp second
    exact Or.inl less
  · intro s one t two
    obtain ⟨a, _, rfl⟩ := List.mem_map.mp one
    obtain ⟨b, _, member⟩ := List.mem_flatMap.mp two
    obtain ⟨k, _, rfl⟩ := List.mem_map.mp member
    trivial

theorem earlier_of_idxOf {selections : List Selection} (ordered : selections.Pairwise Earlier)
    (member : t ∈ selections) (less : selections.idxOf s < selections.idxOf t) : Earlier s t := by
  have second := List.idxOf_lt_length_of_mem member
  have first := Nat.lt_trans less second
  have pairs := List.pairwise_iff_getElem.mp ordered _ _ first second less
  rwa [List.getElem_idxOf, List.getElem_idxOf] at pairs

theorem index_lt_of_pair {a b : Axis} (member : pair a b ∈ candidates most) : a.index < b.index := by
  rcases mem_candidates.mp member with ⟨c, same, _⟩ | ⟨c, d, same, less, _⟩
  · contradiction
  · obtain ⟨rfl, rfl⟩ := pair.inj same
    exact less

/-- Among candidates, the order of the menu is the order in which they are listed. -/
theorem earlier_of_stands (left : s ∈ unprojected :: candidates most)
    (right : t ∈ unprojected :: candidates most)
    (stands : Stands (candidates most).idxOf s t) : Earlier s t := by
  have listed : ∀ u ∈ unprojected :: candidates most, u ≠ unprojected → u ∈ candidates most := by
    intro u member kept
    exact List.mem_of_ne_of_mem kept member
  cases s with
  | unprojected =>
    cases t with
    | unprojected => exact absurd stands not_stands_self
    | single b => trivial
    | pair c d => trivial
  | single a =>
    cases t with
    | unprojected => simp [Stands, axisCount, axes] at stands
    | single b =>
      rcases stands with fewer | ⟨_, less | ⟨_, tie⟩⟩
      · exact absurd fewer (Nat.lt_irrefl 1)
      · exact Nat.lt_of_succ_lt_succ less
      · exact earlier_of_idxOf (pairwise_candidates most) (listed _ right (by simp)) tie
    | pair c d => trivial
  | pair a b =>
    cases t with
    | unprojected => simp [Stands, axisCount, axes] at stands
    | single c => simp [Stands, axisCount, axes] at stands
    | pair c d =>
      have first := index_lt_of_pair (listed _ left (by simp))
      have second := index_lt_of_pair (listed _ right (by simp))
      rcases stands with fewer | ⟨_, less | ⟨_, tie⟩⟩
      · exact absurd fewer (Nat.lt_irrefl 2)
      · simp only [leastNumber, Axis.number] at less
        exact Or.inl (by omega)
      · exact earlier_of_idxOf (pairwise_candidates most) (listed _ right (by simp)) tie

theorem within_candidates (rank most : Nat) :
    s.Within rank ∧ s ∈ candidates most ↔ s ∈ candidates (min rank most) := by
  rw [mem_candidates, mem_candidates]
  constructor
  · rintro ⟨within, ⟨a, rfl, bound⟩ | ⟨a, b, rfl, less, bound⟩⟩
    · have inside : a.index < rank := within_single.mp within
      exact Or.inl ⟨a, rfl, by omega⟩
    · have inside : b.index < rank := (within_pair.mp within).2
      exact Or.inr ⟨a, b, rfl, less, by omega⟩
  · rintro (⟨a, rfl, bound⟩ | ⟨a, b, rfl, less, bound⟩)
    · have inside : a.index < rank := by omega
      exact ⟨within_single.mpr inside, Or.inl ⟨a, rfl, by omega⟩⟩
    · have inside : a.index < rank ∧ b.index < rank := by omega
      exact ⟨within_pair.mpr inside, Or.inr ⟨a, b, rfl, less, by omega⟩⟩

theorem read_write_of_candidate (bound : most ≤ Word.limit) (member : s ∈ candidates most) :
    read s.write = .ok s := by
  apply read_write
  intro a named
  have within : a.number ≤ most := (within_candidates most most).mpr (by rwa [Nat.min_self]) |>.1 a named
  omega

theorem parsed_candidates (bound : most ≤ Word.limit) :
    parsed ((candidates most).map text) = candidates most := by
  unfold parsed
  rw [List.filterMap_map]
  have each : ∀ s ∈ candidates most,
      ((fun t => (read t.toList).toOption) ∘ text) s = some s := by
    intro s member
    simp only [Function.comp_apply, text, String.toList_ofList]
    rw [read_write_of_candidate bound member]
    rfl
  rw [List.filterMap_congr each, List.filterMap_some]

theorem mem_arrange_candidates (rank most : Nat) :
    s ∈ arrange (collect rank (candidates most)) ↔
      s ∈ unprojected :: candidates (min rank most) := by
  rw [mem_arrange, mem_collect, List.mem_cons, ← within_candidates]
  constructor
  · rintro (recorded | ⟨_, within, member⟩)
    · exact Or.inl recorded
    · exact Or.inr ⟨within, member⟩
  · rintro (recorded | ⟨within, member⟩)
    · exact Or.inl recorded
    · refine Or.inr ⟨?_, within, member⟩
      intro recorded
      subst recorded
      exact unprojected_not_mem most member

theorem pairwise_menu (most : Nat) : (unprojected :: candidates most).Pairwise Earlier := by
  rw [List.pairwise_cons]
  refine ⟨?_, pairwise_candidates most⟩
  intro s member
  cases s with
  | unprojected => exact absurd member (unprojected_not_mem most)
  | single a => trivial
  | pair a b => trivial

theorem pairwise_arrange_candidates (rank most : Nat) :
    (arrange (collect rank (candidates most))).Pairwise Earlier := by
  have among : ∀ s ∈ arrange (collect rank (candidates most)), s ∈ unprojected :: candidates most := by
    intro s member
    rcases List.mem_cons.mp ((mem_arrange_candidates rank most).mp member) with recorded | candidate
    · exact List.mem_cons.mpr (Or.inl recorded)
    · exact List.mem_cons_of_mem _ ((within_candidates rank most).mpr candidate).2
  apply (pairwise_arrange (pairwise_collect rank (candidates most))).imp_of_mem
  intro s t left right stands
  exact earlier_of_stands (among s left) (among t right) stands

/-- From the texts of the candidates of a rank, the candidates of the data's own rank are offered where
    that is smaller, and otherwise all of them, in the order in which they are listed. -/
theorem offered_of_candidates (rank most : Nat) (bound : most ≤ Word.limit) :
    offered rank ((candidates most).map text) = unprojected :: candidates (min rank most) := by
  rw [offered_eq, parsed_candidates bound]
  apply eq_of_earlier (pairwise_arrange_candidates rank most) (pairwise_menu (min rank most))
  intro s
  exact mem_arrange_candidates rank most

theorem offered_of_four_and_two :
    offered 2 ((candidates 4).map text) =
      [unprojected, single ⟨0⟩, single ⟨1⟩, pair ⟨0⟩ ⟨1⟩] ∧
    offered 4 ((candidates 2).map text) =
      [unprojected, single ⟨0⟩, single ⟨1⟩, pair ⟨0⟩ ⟨1⟩] :=
  ⟨offered_of_candidates 2 4 (by decide), offered_of_candidates 4 2 (by decide)⟩

end Candidates

end FieldPlot.Selection
