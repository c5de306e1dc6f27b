import FieldPlot.Selection

/-!
The selections that are offered for data of a given rank. `candidates` lists every selection that
keeps something; `offered` filters and arranges a list of texts.
-/
namespace FieldPlot.Selection

def candidates (rank : Nat) : List Selection :=
  ((List.range rank).map fun i => single ⟨i⟩) ++
    (List.range rank).flatMap fun a =>
      (List.range (rank - (a + 1))).map fun k => pair ⟨a⟩ ⟨a + 1 + k⟩

/-- Whether a selection names the axis of this number, and no axis that the data does not have. -/
def Names (rank number : Nat) : Selection → Prop
  | unprojected => False
  | single a => a.number = number
  | pair a b => (a.number = number ∨ b.number = number) ∧ a.number ≤ rank ∧ b.number ≤ rank

instance (rank number : Nat) : DecidablePred (Names rank number)
  | unprojected => inferInstanceAs (Decidable False)
  | single a => inferInstanceAs (Decidable (a.number = number))
  | pair _ _ => inferInstanceAs (Decidable (_ ∧ _))

def insertNew (chosen : List Selection) (s : Selection) : List Selection :=
  if s ∈ chosen then chosen else chosen ++ [s]

def collect (rank : Nat) (parsed : List Selection) : List Selection :=
  (List.range (rank + 1)).foldl
    (fun chosen number => (parsed.filter fun s => Names rank number s).foldl insertNew chosen)
    [unprojected]

/-- By the number of axes kept, without any other change of order. -/
def arrange (selections : List Selection) : List Selection :=
  (selections.filter fun s => s.axisCount = 0) ++ (selections.filter fun s => s.axisCount = 1) ++
    selections.filter fun s => s.axisCount = 2

/-- Showing the data as recorded is always offered, and first. Texts that are no selection, or that
    name an axis that the data does not have, are left out. -/
def offered (rank : Nat) (texts : List String) : List Selection :=
  arrange (collect rank (texts.filterMap fun t => (read t.toList).toOption))

end FieldPlot.Selection
