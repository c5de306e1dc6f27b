import FieldPlot.Image
import FieldPlot.Proofs.Coordinates
import FieldPlot.Proofs.Grid
import FieldPlot.Proofs.Length
import Mathlib.Data.List.ProdSigma

/-!
Images are frames turned by a quarter. Where a pixel comes from (`source`) and where it goes
(`target`) undo each other, so the turn loses nothing, and a grey image can be turned back. Two counts
of values make a frame an image: one or three for each pixel of the declared width and height. Both
kinds are turned alike and take all their values from the frame.
-/
namespace FieldPlot
namespace Image

section Turn

variable {width height r c i : Nat}

/-- The pixel of the frame, counted row by row, that is shown in a row and a column. -/
def source (width r c : Nat) : Nat :=
  c * width + (width - 1 - r)

def target (width i : Nat) : Nat × Nat :=
  (width - 1 - i % width, i / width)

theorem source_lt (low : r < width) (left : c < height) : source width r c < width * height := by
  have lines : (c + 1) * width ≤ height * width := Nat.mul_le_mul_right width left
  rw [source, Nat.mul_comm width]
  rw [Nat.succ_mul] at lines
  omega

theorem target_source (low : r < width) : target width (source width r c) = (r, c) := by
  have positive : 0 < width := Nat.zero_lt_of_lt low
  have inLine : width - 1 - r < width := by omega
  have back : width - 1 - (width - 1 - r) = r := by omega
  rw [target, source, Nat.mul_comm c, Nat.mul_add_mod, Nat.mul_add_div positive,
    Nat.mod_eq_of_lt inLine, Nat.div_eq_of_lt inLine, Nat.add_zero, back]

theorem target_row_lt (positive : 0 < width) (i : Nat) : (target width i).1 < width := by
  rw [target]
  omega

theorem target_column_lt (inside : i < width * height) : (target width i).2 < height :=
  Nat.div_lt_of_lt_mul inside

theorem source_target (positive : 0 < width) (i : Nat) :
    source width (target width i).1 (target width i).2 = i := by
  have inLine : i % width < width := Nat.mod_lt i positive
  have back : width - 1 - (width - 1 - i % width) = i % width := by omega
  rw [target, source, back]
  exact Nat.div_add_mod' i width

/-- Each pixel of the frame is shown in one row and column. -/
theorem existsUnique_place (inside : i < width * height) :
    ∃! place : Nat × Nat, place.1 < width ∧ place.2 < height ∧
      source width place.1 place.2 = i := by
  have positive : 0 < width := Nat.pos_of_mul_pos_right (Nat.zero_lt_of_lt inside)
  refine ⟨target width i, ⟨target_row_lt positive i, target_column_lt inside,
    source_target positive i⟩, ?_⟩
  rintro ⟨r, c⟩ ⟨low, -, rfl⟩
  exact (target_source low).symm

def sources (width height : Nat) : List Nat :=
  (List.range width ×ˢ List.range height).map fun place => source width place.1 place.2

theorem mem_sources (width height i : Nat) : i ∈ sources width height ↔ i < width * height := by
  rw [sources, List.mem_map]
  constructor
  · rintro ⟨⟨r, c⟩, member, rfl⟩
    obtain ⟨low, left⟩ := List.mem_product.mp member
    exact source_lt (List.mem_range.mp low) (List.mem_range.mp left)
  · intro inside
    obtain ⟨⟨r, c⟩, ⟨low, left, here⟩, -⟩ := existsUnique_place inside
    exact ⟨(r, c), List.mem_product.mpr ⟨List.mem_range.mpr low, List.mem_range.mpr left⟩, here⟩

theorem nodup_sources (width height : Nat) : (sources width height).Nodup := by
  refine (List.nodup_range.product List.nodup_range).map_on ?_
  rintro ⟨r, c⟩ member ⟨r', c'⟩ member' same
  have low := List.mem_range.mp (List.mem_product.mp member).1
  have low' := List.mem_range.mp (List.mem_product.mp member').1
  have places := congrArg (target width) same
  rwa [target_source low, target_source low'] at places

theorem sources_perm (width height : Nat) :
    (sources width height).Perm (List.range (width * height)) := by
  rw [List.perm_ext_iff_of_nodup (nodup_sources width height) List.nodup_range]
  intro i
  rw [mem_sources, List.mem_range]

end Turn

section Turned

variable {α : Type} {width height : Nat} {value : Nat → Option α} {pixels : Grid α}

/-- The picture of these pixels turned by a quarter counter-clockwise: a row for each column, the last
    one first. No pixel is asked for that does not exist. -/
structure Turned (width height : Nat) (value : Nat → Option α) (pixels : Grid α) : Prop where
  height_eq : pixels.height = width
  columns_eq : pixels.columns = height
  cell_eq : ∀ r c, r < width → c < height →
    ∃ v, value (c * width + (width - 1 - r)) = some v ∧ pixels.cell? r c = some v

theorem quarterTurn_ofFn [Inhabited α] (shown : Nat → α) :
    quarterTurn (Grid.ofFn height width fun y x => shown (y * width + x)) =
      Grid.ofFn width height fun r c => shown (source width r c) := by
  rw [quarterTurn, Grid.mirrored_ofFn, Grid.transposed_ofFn]
  rfl

theorem turned_ofFn (shown : Nat → α) (found : ∀ i < width * height, value i = some (shown i)) :
    Turned width height value (Grid.ofFn width height fun r c => shown (source width r c)) where
  height_eq := Grid.height_ofFn _ _ _
  columns_eq := rfl
  cell_eq := fun r c low left =>
    ⟨shown (source width r c), found _ (source_lt low left), Grid.cell?_ofFn _ low left⟩

def unturned (pixels : Grid α) : List α :=
  (List.range (pixels.height * pixels.columns)).filterMap fun i =>
    pixels.cell? (target pixels.height i).1 (target pixels.height i).2

theorem filterMap_getElem?_range (values : List α) :
    (List.range values.length).filterMap (values[·]?) = values := by
  induction values with
  | nil => rfl
  | cons v values ih => simpa [List.range_succ_eq_map, List.filterMap_map] using ih

theorem Turned.unturned_eq {values : List α} (turned : Turned width height (values[·]?) pixels)
    (count : values.length = width * height) : unturned pixels = values := by
  obtain ⟨rfl, rfl, cells⟩ := turned
  rw [unturned, ← count]
  refine Eq.trans (List.filterMap_congr fun i member => ?_) (filterMap_getElem?_range values)
  have inside : i < pixels.height * pixels.columns := count ▸ List.mem_range.mp member
  have positive : 0 < pixels.height := Nat.pos_of_mul_pos_right (Nat.zero_lt_of_lt inside)
  obtain ⟨v, found, shown⟩ :=
    cells _ _ (target_row_lt positive i) (target_column_lt inside)
  rw [shown, ← found]
  exact congrArg (values[·]?) (source_target positive i)

end Turned

/-- The header declares this width and height, which make at least one pixel, and the frame has so
    many values for each pixel. -/
structure Fills (h : Header) (frame : List Float) (depth width height : Nat) : Prop where
  declared : ∃ further, h.extents = width :: height :: further
  positive : 0 < width * height
  count : frame.length = depth * (width * height)

/-- The colour of a pixel among values that give blue, green and red in this order. -/
def colour? (frame : List Float) (i : Nat) : Option Colour := do
  let blue ← frame[i * 3]?
  let green ← frame[i * 3 + 1]?
  let red ← frame[i * 3 + 2]?
  return ⟨byte red, byte green, byte blue⟩

section Pixels

variable {width height : Nat} {frame : List Float}

theorem greyOf_eq (width height : Nat) (values : Array Float) :
    greyOf width height values =
      Grid.ofFn width height fun r c => values.getD (source width r c) 0 :=
  quarterTurn_ofFn fun i => values.getD i 0

theorem greyOf_turned (count : frame.length = width * height) :
    Turned width height (frame[·]?) (greyOf width height frame.toArray) := by
  rw [greyOf_eq]
  exact turned_ofFn (fun i => frame.toArray.getD i 0) fun i inside => by
    simp [count, inside]

theorem greyOf_perm (count : frame.length = width * height) :
    (greyOf width height frame.toArray).values.Perm frame := by
  have values : (greyOf width height frame.toArray).values =
      (sources width height).map (frame.getD · 0) := by
    simp [greyOf_eq, Grid.ofFn, Grid.values, sources, SProd.sprod, List.product, List.flatMap,
      Function.comp_def]
  have inOrder : (List.range (width * height)).map (frame.getD · 0) = frame := by
    rw [← count]
    exact map_getD_range frame 0
  rw [values]
  exact ((sources_perm width height).map _).trans (.of_eq inOrder)

theorem colouredOf_turned (count : frame.length = 3 * (width * height)) :
    Turned width height (colour? frame) (colouredOf width height frame.toArray) := by
  let channel (i k : Nat) : UInt8 := byte (frame.toArray.getD (i * 3 + (2 - k)) 0)
  let shown (i : Nat) : Colour := ⟨channel i 0, channel i 1, channel i 2⟩
  have turn : colouredOf width height frame.toArray =
      Grid.ofFn width height fun r c => shown (source width r c) :=
    quarterTurn_ofFn shown
  rw [turn]
  refine turned_ofFn shown fun i inside => ?_
  have blue : i * 3 < frame.length := by omega
  have green : i * 3 + 1 < frame.length := by omega
  have red : i * 3 + 2 < frame.length := by omega
  simp [colour?, shown, channel, blue, green, red]

end Pixels

section Decoding

variable {h : Header} {frame : List Float} {width height : Nat}

theorem extents_of_declared {further : List Nat} (declared : h.extents = width :: height :: further) :
    extents h = (width, height) := by
  rw [extents, declared]

theorem declared_of_positive (positive : 0 < (extents h).1 * (extents h).2) :
    ∃ further, h.extents = (extents h).1 :: (extents h).2 :: further := by
  unfold extents at positive ⊢
  split
  next declared => exact ⟨_, declared⟩
  next declared => simp [declared] at positive
  next declared => simp [declared] at positive

theorem Fills.pixels {depth : Nat} (fills : Fills h frame depth width height)
    (single : 0 < depth) (memory : frame.length ≤ Word.arrayLimit) :
    Word.mul? width height = some (width * height) := by
  have most : width * height ≤ frame.length := fills.count ▸ Nat.le_mul_of_pos_left _ single
  have bound : width * height ≤ Word.limit :=
    (most.trans memory).trans (by decide)
  exact Word.mul?_eq_some_iff.mpr ⟨rfl, bound⟩

theorem decode_grey (fills : Fills h frame 1 width height)
    (memory : frame.length ≤ Word.arrayLimit) :
    decode h frame = .ok (.grey (greyOf width height frame.toArray)) := by
  obtain ⟨further, declared⟩ := fills.declared
  have count : frame.length = width * height := fills.count.trans (Nat.one_mul _)
  have single : Word.mul? (width * height) 3 ≠ some frame.length := by
    intro triple
    have thrice := (Word.mul?_eq_some_iff.mp triple).1
    have positive := fills.positive
    omega
  simp only [decode, extents_of_declared declared, fills.pixels Nat.one_pos memory,
    if_neg fills.positive.ne', if_neg single, if_pos count]

theorem decode_coloured (fills : Fills h frame 3 width height)
    (memory : frame.length ≤ Word.arrayLimit) :
    decode h frame = .ok (.coloured (colouredOf width height frame.toArray)) := by
  obtain ⟨further, declared⟩ := fills.declared
  have count : frame.length = width * height * 3 := fills.count.trans (Nat.mul_comm 3 _)
  have bound : width * height * 3 ≤ Word.limit := count ▸ memory.trans (by decide)
  have triple : Word.mul? (width * height) 3 = some frame.length :=
    Word.mul?_eq_some_iff.mpr ⟨count, bound⟩
  simp only [decode, extents_of_declared declared, fills.pixels (by decide) memory,
    if_neg fills.positive.ne', if_pos triple]

theorem fills_or_refused (h : Header) (frame : List Float) :
    (∃ width height, Fills h frame 1 width height ∨ Fills h frame 3 width height) ∨
      decode h frame = .error (.notAnImage frame.length (extents h).1 (extents h).2) := by
  simp only [decode]
  cases product : Word.mul? (extents h).1 (extents h).2 with
  | none => exact .inr rfl
  | some pixels =>
    obtain ⟨rfl, -⟩ := Word.mul?_eq_some_iff.mp product
    dsimp only
    split_ifs with empty triple single
    · exact .inr rfl
    · have positive := Nat.pos_of_ne_zero empty
      have count := (Word.mul?_eq_some_iff.mp triple).1
      exact .inl ⟨_, _, .inr ⟨declared_of_positive positive, positive,
        count.trans (Nat.mul_comm _ 3)⟩⟩
    · have positive := Nat.pos_of_ne_zero empty
      exact .inl ⟨_, _, .inl ⟨declared_of_positive positive, positive,
        single.trans (Nat.one_mul _).symm⟩⟩
    · exact .inr rfl

/-- A frame is an image just if it has one value or three for each of at least one pixel; any other is
    refused. A grey image has every value of the frame in one place, and turning it back gives the
    frame. In a coloured one red, green and blue come from the last, the middle and the first of the
    three values of a pixel. -/
theorem images_are_turned_frames (h : Header) (frame : List Float)
    (memory : frame.length ≤ Word.arrayLimit) :
    ((∃ image, decode h frame = .ok image) ↔
      ∃ width height, Fills h frame 1 width height ∨ Fills h frame 3 width height) ∧
    (∀ cause, decode h frame = .error cause →
      cause = .notAnImage frame.length (extents h).1 (extents h).2) ∧
    ∀ width height,
      (Fills h frame 1 width height → ∃ pixels, decode h frame = .ok (.grey pixels) ∧
        Turned width height (frame[·]?) pixels ∧
        (∀ i < frame.length, ∃! place : Nat × Nat, place.1 < width ∧ place.2 < height ∧
          source width place.1 place.2 = i) ∧
        pixels.values.Perm frame ∧ unturned pixels = frame) ∧
      (Fills h frame 3 width height → ∃ pixels, decode h frame = .ok (.coloured pixels) ∧
        Turned width height (colour? frame) pixels) := by
  refine ⟨⟨?_, ?_⟩, fun cause fails => ?_, fun width height => ⟨fun fills => ?_, fun fills => ?_⟩⟩
  · rintro ⟨image, decoded⟩
    refine (fills_or_refused h frame).resolve_right fun refused => ?_
    rw [decoded] at refused
    contradiction
  · rintro ⟨width, height, fills | fills⟩
    · exact ⟨_, decode_grey fills memory⟩
    · exact ⟨_, decode_coloured fills memory⟩
  · rcases fills_or_refused h frame with ⟨width, height, fills | fills⟩ | refused
    · rw [decode_grey fills memory] at fails
      contradiction
    · rw [decode_coloured fills memory] at fails
      contradiction
    · exact Except.error.inj (fails.symm.trans refused)
  · have count : frame.length = width * height := fills.count.trans (Nat.one_mul _)
    have turned := greyOf_turned count
    refine ⟨_, decode_grey fills memory, turned, fun i inside => ?_, greyOf_perm count,
      turned.unturned_eq count⟩
    exact existsUnique_place (count ▸ inside)
  · exact ⟨_, decode_coloured fills memory, colouredOf_turned fills.count⟩

theorem small_images_are_turned_frames :
    (∃ pixels, decode (.ofExtents [3, 2]) [1, 2, 3, 4, 5, 6] = .ok (.grey pixels) ∧
      pixels.cell? 0 1 = some 6 ∧ unturned pixels = [1, 2, 3, 4, 5, 6]) ∧
    ∃ pixels, decode ⟨"Mat", "CV_8UC3", [2, 1]⟩ [10, 20, 30, 40, 50, 300] = .ok (.coloured pixels) ∧
      pixels.cell? 0 0 = some ⟨255, 50, 40⟩ := by
  constructor
  · have fills : Fills (.ofExtents [3, 2]) [1, 2, 3, 4, 5, 6] 1 3 2 := ⟨⟨[], rfl⟩, by decide, rfl⟩
    obtain ⟨pixels, decoded, turned, -, -, back⟩ :=
      ((images_are_turned_frames _ _ (by decide)).2.2 3 2).1 fills
    obtain ⟨v, found, shown⟩ := turned.cell_eq 0 1 (by decide) (by decide)
    obtain rfl := Option.some.inj found
    exact ⟨pixels, decoded, shown, back⟩
  · have fills : Fills ⟨"Mat", "CV_8UC3", [2, 1]⟩ [10, 20, 30, 40, 50, 300] 3 2 1 :=
      ⟨⟨[], rfl⟩, by decide, rfl⟩
    obtain ⟨pixels, decoded, turned⟩ :=
      ((images_are_turned_frames _ _ (by decide)).2.2 2 1).2 fills
    obtain ⟨v, found, shown⟩ := turned.cell_eq 0 0 (by decide) (by decide)
    have last : colour? [10, 20, 30, 40, 50, 300] 1 = some ⟨255, 50, 40⟩ := by decide +kernel
    obtain rfl := Option.some.inj (found.symm.trans last)
    exact ⟨pixels, decoded, shown⟩

end Decoding

end Image
end FieldPlot
