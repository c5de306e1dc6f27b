/-!
White space and trimming. `isBlank` is the Unicode property White_Space (25 characters);
`isBlankByte` is the smaller set that a table strips from its fields before they are read as text.
-/
namespace FieldPlot.Text

/-- The ranges of the property White_Space, in ascending order. -/
def blankRanges : List (Nat × Nat) :=
  [(0x09, 0x0D), (0x20, 0x20), (0x85, 0x85), (0xA0, 0xA0), (0x1680, 0x1680), (0x2000, 0x200A),
   (0x2028, 0x2029), (0x202F, 0x202F), (0x205F, 0x205F), (0x3000, 0x3000)]

def isBlank (c : Char) : Bool :=
  blankRanges.any fun (low, high) => low ≤ c.toNat && c.toNat ≤ high

def isBlankByte (b : UInt8) : Bool :=
  b == 9 || b == 10 || b == 12 || b == 13 || b == 32

def stripBoth {α : Type} (drop : α → Bool) (s : List α) : List α :=
  ((s.dropWhile drop).reverse.dropWhile drop).reverse

def trim (s : List Char) : List Char :=
  stripBoth isBlank s

/-- ASCII capitals become small letters; every other character stays. -/
def lower (s : List Char) : List Char :=
  s.map Char.toLower

def keyword (s : String) : String :=
  String.ofList (lower (trim s.toList))

/-- Cuts at every separator; there is one part more than there are separators. -/
def cutAt (separator : Char) : List Char → List (List Char)
  | [] => [[]]
  | c :: rest =>
    if c = separator then [] :: cutAt separator rest
    else
      match cutAt separator rest with
      | [] => [[c]]
      | part :: parts => (c :: part) :: parts

def withoutEnding? (ending s : List Char) : Option (List Char) :=
  if ending.isSuffixOf s then some (s.take (s.length - ending.length)) else none

theorem cutAt_ne_nil (separator : Char) (s : List Char) : cutAt separator s ≠ [] := by
  cases s with
  | nil => simp [cutAt]
  | cons c rest =>
    simp only [cutAt]
    split
    · simp
    · split <;> simp

theorem intercalate_cutAt (separator : Char) (s : List Char) :
    [separator].intercalate (cutAt separator s) = s := by
  induction s with
  | nil => simp [cutAt]
  | cons c rest ih =>
    have parts := cutAt_ne_nil separator rest
    simp only [cutAt]
    split
    · rename_i same
      cases h : cutAt separator rest with
      | nil => exact absurd h parts
      | cons part more =>
        rw [h] at ih
        simp [List.intercalate, List.intersperse, same] at ih ⊢
        exact ih
    · cases h : cutAt separator rest with
      | nil => exact absurd h parts
      | cons part more =>
        rw [h] at ih
        cases more with
        | nil => simpa [List.intercalate, List.intersperse] using ih
        | cons next others => simpa [List.intercalate, List.intersperse] using ih

end FieldPlot.Text
