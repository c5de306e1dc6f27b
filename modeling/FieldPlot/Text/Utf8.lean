/-!
UTF-8. `decode` reads bytes up to the end or up to the first place where they spell no character;
the number of bytes before that place is what a report about the text gives.
-/
namespace FieldPlot.Text.Utf8

def encode (s : List Char) : List UInt8 :=
  s.flatMap String.utf8EncodeChar

def isTail (b : UInt8) : Bool :=
  0x80 ≤ b.toNat && b.toNat ≤ 0xBF

def character? (low high number : Nat) : Option Char :=
  if low ≤ number ∧ number ≤ high ∧ number.isValidChar then some (Char.ofNat number) else none

/-- The first character of the bytes, with the number of bytes that spell it. A form longer than
    the shortest, a surrogate and a number above the last character spell nothing. -/
def first? : List UInt8 → Option (Char × Nat)
  | [] => none
  | a :: rest =>
    let lead := a.toNat
    if lead < 0x80 then some (Char.ofNat lead, 1)
    else if lead < 0xC0 then none
    else if lead < 0xE0 then
      match rest with
      | b :: _ =>
        if isTail b then
          (character? 0x80 0x7FF ((lead - 0xC0) * 64 + (b.toNat - 0x80))).map (·, 2)
        else none
      | _ => none
    else if lead < 0xF0 then
      match rest with
      | b :: c :: _ =>
        if isTail b && isTail c then
          (character? 0x800 0xFFFF
            ((lead - 0xE0) * 4096 + (b.toNat - 0x80) * 64 + (c.toNat - 0x80))).map (·, 3)
        else none
      | _ => none
    else if lead < 0xF8 then
      match rest with
      | b :: c :: d :: _ =>
        if isTail b && isTail c && isTail d then
          (character? 0x10000 0x10FFFF
            ((lead - 0xF0) * 262144 + (b.toNat - 0x80) * 4096 + (c.toNat - 0x80) * 64
              + (d.toNat - 0x80))).map (·, 4)
        else none
      | _ => none
    else none

/-- Reads characters while there are any, `before` bytes after the start of the text. The steps are
    bounded by the number of bytes, since every character takes one at least. -/
def decodeFrom : Nat → Nat → List UInt8 → Except Nat (List Char)
  | _, _, [] => .ok []
  | 0, before, _ :: _ => .error before
  | steps + 1, before, bytes =>
    match first? bytes with
    | none => .error before
    | some (c, size) => (decodeFrom steps (before + size) (bytes.drop size)).map (c :: ·)

/-- The text that the bytes spell, or the number of bytes before the first that spell none. -/
def decode (bytes : List UInt8) : Except Nat (List Char) :=
  decodeFrom bytes.length 0 bytes

def mark : List UInt8 := [0xEF, 0xBB, 0xBF]

end FieldPlot.Text.Utf8
