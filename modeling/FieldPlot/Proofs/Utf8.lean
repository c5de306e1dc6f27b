import FieldPlot.Text.Blank
import FieldPlot.Text.Utf8
import Mathlib.Data.List.Basic

/-!
Texts as bytes. Reading the bytes of a text gives the text back (`decode_encode`), a byte below 128
is always a character of its own, and a text without blanks at its ends is trimmed neither as bytes
nor as characters.
-/
namespace FieldPlot.Text

namespace Utf8

inductive Spells (c : Char) : List UInt8 → Prop where
  | one {a : UInt8} (high : c.toNat < 0x80) (lead : a.toNat = c.toNat) : Spells c [a]
  | two {a b : UInt8} (low : 0x80 ≤ c.toNat) (high : c.toNat < 0x800)
      (lead : a.toNat = 0xC0 + c.toNat / 64) (last : b.toNat = 0x80 + c.toNat % 64) :
      Spells c [a, b]
  | three {a b d : UInt8} (low : 0x800 ≤ c.toNat) (high : c.toNat < 0x10000)
      (lead : a.toNat = 0xE0 + c.toNat / 4096) (second : b.toNat = 0x80 + c.toNat / 64 % 64)
      (last : d.toNat = 0x80 + c.toNat % 64) : Spells c [a, b, d]
  | four {a b d e : UInt8} (low : 0x10000 ≤ c.toNat) (high : c.toNat < 0x110000)
      (lead : a.toNat = 0xF0 + c.toNat / 262144) (second : b.toNat = 0x80 + c.toNat / 4096 % 64)
      (third : d.toNat = 0x80 + c.toNat / 64 % 64) (last : e.toNat = 0x80 + c.toNat % 64) :
      Spells c [a, b, d, e]

theorem toNat_byte {n m : Nat} (same : n = m) (small : m < 256) : (UInt8.ofNat n).toNat = m :=
  same ▸ UInt8.toNat_ofNat_of_lt' (same ▸ small)

theorem spells_encodeChar (c : Char) : Spells c (String.utf8EncodeChar c) := by
  have number : c.val.toNat = c.toNat := rfl
  have most : c.toNat < 0x110000 := by
    rcases c.valid with low | ⟨_, high⟩
    · exact Nat.lt_trans low (by decide)
    · exact high
  unfold String.utf8EncodeChar
  simp only [number]
  split
  · exact .one (by omega) (toNat_byte rfl (by omega))
  · split
    · exact .two (by omega) (by omega) (toNat_byte (by omega) (by omega))
        (toNat_byte (by omega) (by omega))
    · split
      · exact .three (by omega) (by omega) (toNat_byte (by omega) (by omega))
          (toNat_byte (by omega) (by omega)) (toNat_byte (by omega) (by omega))
      · exact .four (by omega) most (toNat_byte (by omega) (by omega))
          (toNat_byte (by omega) (by omega)) (toNat_byte (by omega) (by omega))
          (toNat_byte (by omega) (by omega))

theorem isTail_of_eq {b : UInt8} {n : Nat} (value : b.toNat = 0x80 + n % 64) : isTail b = true := by
  simp only [isTail, value, Bool.and_eq_true, decide_eq_true_eq]
  omega

theorem character?_of_eq {low high n : Nat} {c : Char} (same : n = c.toNat) (above : low ≤ c.toNat)
    (below : c.toNat ≤ high) : character? low high n = some c := by
  rw [character?, same, if_pos ⟨above, below, c.valid⟩, Char.ofNat_toNat]

theorem first?_append_of_spells {c : Char} {bytes : List UInt8} (spells : Spells c bytes)
    (rest : List UInt8) : first? (bytes ++ rest) = some (c, bytes.length) := by
  cases spells with
  | one high lead =>
    simp only [List.cons_append, first?, lead]
    rw [if_pos high, Char.ofNat_toNat]
    rfl
  | two low high lead last =>
    simp only [List.cons_append, first?, lead, isTail_of_eq last]
    rw [if_neg (by omega), if_neg (by omega), if_pos (by omega), if_pos trivial,
      character?_of_eq (by omega) low (by omega)]
    rfl
  | three low high lead second last =>
    simp only [List.cons_append, first?, lead, isTail_of_eq second, isTail_of_eq last]
    rw [if_neg (by omega), if_neg (by omega), if_neg (by omega), if_pos (by omega)]
    rw [Bool.and_self, if_pos rfl, character?_of_eq (by omega) low (by omega)]
    rfl
  | four low high lead second third last =>
    simp only [List.cons_append, first?, lead, isTail_of_eq second, isTail_of_eq third,
      isTail_of_eq last]
    rw [if_neg (by omega), if_neg (by omega), if_neg (by omega), if_neg (by omega),
      if_pos (by omega)]
    rw [Bool.and_self, Bool.and_self, if_pos rfl, character?_of_eq (by omega) low (by omega)]
    rfl

theorem Spells.eq_of_mem {c : Char} {bytes : List UInt8} (spells : Spells c bytes) {b : UInt8}
    (member : b ∈ bytes) (small : b.toNat < 0x80) : c = Char.ofNat b.toNat := by
  cases spells with
  | one high lead =>
    obtain rfl := List.mem_singleton.mp member
    rw [lead, Char.ofNat_toNat]
  | two low high lead last =>
    simp only [List.mem_cons, List.not_mem_nil, or_false] at member
    rcases member with rfl | rfl <;> omega
  | three low high lead second last =>
    simp only [List.mem_cons, List.not_mem_nil, or_false] at member
    rcases member with rfl | rfl | rfl <;> omega
  | four low high lead second third last =>
    simp only [List.mem_cons, List.not_mem_nil, or_false] at member
    rcases member with rfl | rfl | rfl | rfl <;> omega

theorem Spells.ne_nil {c : Char} {bytes : List UInt8} (spells : Spells c bytes) : bytes ≠ [] := by
  cases spells <;> simp

theorem encode_append (s t : List Char) : encode (s ++ t) = encode s ++ encode t :=
  List.flatMap_append

theorem encode_cons (c : Char) (s : List Char) :
    encode (c :: s) = String.utf8EncodeChar c ++ encode s :=
  List.flatMap_cons

theorem encode_ne_nil {s : List Char} (some : s ≠ []) : encode s ≠ [] := by
  obtain ⟨c, s, rfl⟩ := List.exists_cons_of_ne_nil some
  rw [encode_cons]
  exact List.append_ne_nil_of_left_ne_nil (spells_encodeChar c).ne_nil _

theorem mem_encode_of_small {s : List Char} {b : UInt8} (member : b ∈ encode s)
    (small : b.toNat < 0x80) : Char.ofNat b.toNat ∈ s := by
  obtain ⟨c, there, spelled⟩ := List.mem_flatMap.mp member
  rwa [← (spells_encodeChar c).eq_of_mem spelled small]

theorem decodeFrom_encode (s : List Char) (steps before : Nat)
    (enough : (encode s).length ≤ steps) : decodeFrom steps before (encode s) = .ok s := by
  induction s generalizing steps before with
  | nil => simp [encode, decodeFrom]
  | cons c s ih =>
    -- A character takes one step and at least one byte.
    have spells := spells_encodeChar c
    have one : 0 < (String.utf8EncodeChar c).length := List.length_pos_iff.mpr spells.ne_nil
    rw [encode_cons, List.length_append] at enough
    obtain ⟨steps, rfl⟩ := Nat.exists_eq_add_of_le' (show 1 ≤ steps by omega)
    have here : decodeFrom (steps + 1) before (encode (c :: s)) =
        (decodeFrom steps (before + (String.utf8EncodeChar c).length) (encode s)).map (c :: ·) := by
      rw [encode_cons, decodeFrom, first?_append_of_spells spells]
      · simp only [List.drop_left]
      · simp [spells.ne_nil]
    rw [here, ih steps _ (by omega)]
    rfl

theorem decode_encode (s : List Char) : decode (encode s) = .ok s :=
  decodeFrom_encode s _ 0 (Nat.le_refl _)

theorem encode_injective : Function.Injective encode := by
  intro s t same
  have decoded := congrArg decode same
  rw [decode_encode, decode_encode] at decoded
  exact Except.ok.inj decoded

/-- Only a text that starts with the byte order mark has its bytes at the start. -/
theorem not_mark_isPrefix {c : Char} (s : List Char) (other : c ≠ '\uFEFF') :
    ¬ mark <+: encode (c :: s) := by
  rintro ⟨rest, same⟩
  have marked := first?_append_of_spells (spells_encodeChar '\uFEFF') rest
  have first := first?_append_of_spells (spells_encodeChar c) (encode s)
  have spelled : String.utf8EncodeChar '\uFEFF' = mark := by decide
  rw [spelled, same, encode_cons, first] at marked
  exact other (Prod.mk.inj (Option.some.inj marked)).1

theorem not_mark_isPrefix_of_start {start s : List Char} (starts : start <+: s)
    (filled : start ≠ []) (unmarked : start.head? ≠ some '\uFEFF') : ¬ mark <+: encode s := by
  obtain ⟨c, others, rfl⟩ := List.exists_cons_of_ne_nil filled
  obtain ⟨rest, rfl⟩ := starts
  apply not_mark_isPrefix
  intro marked
  exact unmarked (congrArg some marked)

end Utf8

theorem dropWhile_eq_self {α : Type} {drop : α → Bool} {s : List α}
    (first : ∀ x ∈ s.head?, drop x = false) : s.dropWhile drop = s := by
  cases s with
  | nil => rfl
  | cons x s => rw [List.dropWhile_cons_of_neg (by simp [first x rfl])]

theorem stripBoth_eq_self {α : Type} {drop : α → Bool} {s : List α}
    (first : ∀ x ∈ s.head?, drop x = false) (last : ∀ x ∈ s.getLast?, drop x = false) :
    stripBoth drop s = s := by
  rw [stripBoth, dropWhile_eq_self first, dropWhile_eq_self (by rwa [List.head?_reverse]),
    List.reverse_reverse]

structure Trimmed (s : List Char) : Prop where
  first : ∀ c ∈ s.head?, isBlank c = false
  last : ∀ c ∈ s.getLast?, isBlank c = false

theorem Trimmed.trim {s : List Char} (trimmed : Trimmed s) : trim s = s :=
  stripBoth_eq_self trimmed.first trimmed.last

theorem isBlank_of_isBlankByte {b : UInt8} (blank : isBlankByte b = true) :
    b.toNat < 0x80 ∧ isBlank (Char.ofNat b.toNat) = true := by
  simp only [isBlankByte, Bool.or_eq_true, beq_iff_eq] at blank
  rcases blank with (((rfl | rfl) | rfl) | rfl) | rfl <;> decide

/-- The first and the last byte of a text without blanks at its ends are no blanks. -/
theorem Trimmed.stripBoth_encode {s : List Char} (trimmed : Trimmed s) :
    stripBoth isBlankByte (Utf8.encode s) = Utf8.encode s := by
  have proper : ∀ (c : Char) (b : UInt8), isBlank c = false → b ∈ String.utf8EncodeChar c →
      isBlankByte b = false := by
    intro c b solid member
    rw [Bool.eq_false_iff]
    intro blank
    obtain ⟨small, blank'⟩ := isBlank_of_isBlankByte blank
    rw [← (Utf8.spells_encodeChar c).eq_of_mem member small, solid] at blank'
    contradiction
  apply stripBoth_eq_self
  · intro b first
    cases s with
    | nil => simp [Utf8.encode] at first
    | cons c s =>
      rw [Utf8.encode_cons, List.head?_append_of_ne_nil _ (Utf8.spells_encodeChar c).ne_nil] at first
      exact proper c b (trimmed.first c rfl) (List.mem_of_head? first)
  · intro b last
    rcases List.eq_nil_or_concat s with rfl | ⟨s, c, rfl⟩
    · simp [Utf8.encode] at last
    · rw [List.concat_eq_append, Utf8.encode_append,
        List.getLast?_append_of_ne_nil _ (Utf8.encode_ne_nil (by simp)), Utf8.encode_cons,
        Utf8.encode, List.flatMap_nil, List.append_nil] at last
      exact proper c b (trimmed.last c (by simp)) (List.mem_of_getLast? last)

end FieldPlot.Text
