/-! # White space

The characters with the Unicode White_Space property, and the operations on
text that are stated through them or through line breaks: trimming at either
end and cutting into lines.
-/

namespace Marginalia.Text

/-- Membership in the White_Space property. Information separators, the zero
width space and the byte order mark are not white. -/
def isWhite (c : Char) : Bool :=
  let n := c.toNat
  (0x09 ≤ n && n ≤ 0x0D) || n == 0x20 || n == 0x85 || n == 0xA0 || n == 0x1680 ||
    (0x2000 ≤ n && n ≤ 0x200A) || n == 0x2028 || n == 0x2029 || n == 0x202F ||
    n == 0x205F || n == 0x3000

def trimStart (text : List Char) : List Char :=
  text.dropWhile isWhite

def trimEnd (text : List Char) : List Char :=
  (text.reverse.dropWhile isWhite).reverse

def trim (text : List Char) : List Char :=
  trimEnd (trimStart text)

/-- Cuts a text after each newline. Only the last piece can lack one, and no
piece is empty. -/
def pieces (text : List Char) : List (List Char) :=
  text.foldr
    (fun c found =>
      if c = '\n' then ['\n'] :: found
      else
        match found with
        | [] => [[c]]
        | piece :: rest => (c :: piece) :: rest)
    []

/-- Drops the line ending of a piece: a newline with at most one carriage
return before it. A carriage return without a newline stays. -/
def dropLineEnd (piece : List Char) : List Char :=
  match piece.reverse with
  | '\n' :: '\r' :: rest => rest.reverse
  | '\n' :: rest => rest.reverse
  | _ => piece

/-- The lines of a text, without their endings. A newline at the very end
opens no further line. -/
def lines (text : List Char) : List (List Char) :=
  (pieces text).map dropLineEnd

@[simp] theorem lines_nil : lines [] = [] := rfl

theorem pieces_flatten (text : List Char) : (pieces text).flatten = text := by
  induction text with
  | nil => rfl
  | cons c rest ih =>
      unfold pieces at ih ⊢
      rw [List.foldr_cons]
      split
      · next h => simp [h, ih]
      · next h =>
          split
          · next hfound => rw [hfound] at ih; simp at ih; simp [ih]
          · next piece more hfound => rw [hfound] at ih; simp at ih; simp [ih]

end Marginalia.Text
