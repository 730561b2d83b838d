/-! # Lossy decoding

Bytes read as UTF-8 where nothing may fail: a sequence that is not UTF-8 is
replaced, one replacement character for each longest part that a character
could have started with.
-/

namespace Marginalia.Text

def replacement : Char := '\ufffd'

/-- What a leading byte announces: its own bits, the range of the byte after it,
and the number of bytes to come. -/
structure Lead where
  bits : Nat
  low : Nat
  high : Nat
  more : Nat
  deriving Repr

/-- The meaning of a byte at the start of a character, `none` if no character
starts with it. The second byte's range excludes overlong forms, surrogates and
values that are too large. -/
def lead? (byte : Nat) : Option Lead :=
  if byte < 0x80 then some ⟨byte, 0x80, 0xBF, 0⟩
  else if byte < 0xC2 then none
  else if byte < 0xE0 then some ⟨byte - 0xC0, 0x80, 0xBF, 1⟩
  else if byte = 0xE0 then some ⟨0, 0xA0, 0xBF, 2⟩
  else if byte = 0xED then some ⟨0xD, 0x80, 0x9F, 2⟩
  else if byte < 0xF0 then some ⟨byte - 0xE0, 0x80, 0xBF, 2⟩
  else if byte = 0xF0 then some ⟨0, 0x90, 0xBF, 3⟩
  else if byte < 0xF4 then some ⟨byte - 0xF0, 0x80, 0xBF, 3⟩
  else if byte = 0xF4 then some ⟨4, 0x80, 0x8F, 3⟩
  else none

/-- Reads the bytes still owed to a character. A byte out of range is left for
the next character. -/
def readTail : (more bits low high : Nat) → List UInt8 → Char × List UInt8
  | 0, bits, _, _, rest => (Char.ofNat bits, rest)
  | _ + 1, _, _, _, [] => (replacement, [])
  | more + 1, bits, low, high, byte :: rest =>
      if low ≤ byte.toNat ∧ byte.toNat ≤ high then
        readTail more (bits * 64 + (byte.toNat - 0x80)) 0x80 0xBF rest
      else (replacement, byte :: rest)

/-- The character at the head of some bytes, or a replacement, and what follows. -/
def readChar (byte : UInt8) (rest : List UInt8) : Char × List UInt8 :=
  match lead? byte.toNat with
  | none => (replacement, rest)
  | some lead => readTail lead.more lead.bits lead.low lead.high rest

theorem length_readTail_le (more bits low high : Nat) (bytes : List UInt8) :
    (readTail more bits low high bytes).2.length ≤ bytes.length := by
  fun_induction readTail more bits low high bytes with
  | case1 => exact Nat.le_refl _
  | case2 => exact Nat.le_refl _
  | case3 bits low high more byte rest hrange ih => exact Nat.le_succ_of_le ih
  | case4 => exact Nat.le_refl _

theorem length_readChar_le (byte : UInt8) (rest : List UInt8) :
    (readChar byte rest).2.length ≤ rest.length := by
  unfold readChar
  split
  · exact Nat.le_refl _
  · exact length_readTail_le ..

/-- All characters of some bytes, with replacements. -/
def decodeLossy (bytes : List UInt8) : List Char :=
  match bytes with
  | [] => []
  | byte :: rest => (readChar byte rest).1 :: decodeLossy (readChar byte rest).2
termination_by bytes.length
decreasing_by exact Nat.lt_succ_of_le (length_readChar_le byte rest)

/-- The text that some bytes encode, `none` if they are not UTF-8. -/
def decode? (bytes : List UInt8) : Option String :=
  String.fromUTF8? ⟨bytes.toArray⟩

end Marginalia.Text
