import Marginalia.Bisect

/-! # Line tables

A line table holds the byte offsets at which the lines of a text end: each
newline, and the end of the text. The line of an offset is found by binary
search.
-/

namespace Marginalia

/-- The number of bytes that a text takes in UTF-8. -/
def utf8Length (text : List Char) : Nat :=
  text.foldl (fun size c => size + c.utf8Size) 0

structure LineTable where
  /-- Offsets of line ends, increasing. -/
  ends : Array Nat
  deriving Repr

namespace LineTable

/-- Collects the offsets of the newlines of a text that starts at `offset`, and
last the offset of its end. -/
def endsFrom (offset : Nat) (found : Array Nat) : List Char → Array Nat
  | [] => found.push offset
  | c :: rest =>
      endsFrom (offset + c.utf8Size) (if c = '\n' then found.push offset else found) rest

def ofText (text : List Char) : LineTable :=
  ⟨endsFrom 0 #[] text⟩

/-- The line, counted from one, that holds a byte offset. An offset past the
end of the text is on one line more than the last. -/
def lineAt (table : LineTable) (offset : Nat) : Nat :=
  1 + partitionPoint (fun i => (table.ends[i]?).any (· < offset)) 0 table.ends.size

theorem one_le_lineAt (table : LineTable) (offset : Nat) : 1 ≤ table.lineAt offset :=
  Nat.le_add_right _ _

end LineTable

end Marginalia
