import Marginalia.Text.Fold
import Marginalia.Text.White
import Marginalia.Text.Word

/-! # Sets of characters

The sets that patterns are made of, as expressions, with a decidable membership.
-/

namespace Marginalia

inductive CharSet where
  | empty
  | range (low high : Char)
  | word
  | digit
  | white
  | union (left right : CharSet)
  | inter (left right : CharSet)
  | compl (set : CharSet)
  /-- The characters that differ from a member only in letter case. -/
  | folded (set : CharSet)
  /-- The same for the letters of ASCII alone. -/
  | foldedAscii (set : CharSet)
  deriving DecidableEq, Repr

namespace CharSet

/-- The other letter case of an ASCII letter. -/
def swapAscii (c : Char) : Char :=
  if c.isUpper then c.toLower else c.toUpper

def mem : CharSet → Char → Bool
  | .empty, _ => false
  | .range low high, c => low ≤ c && c ≤ high
  | .word, c => Text.isWord c
  | .digit, c => Text.isDigit c
  | .white, c => Text.isWhite c
  | .union left right, c => left.mem c || right.mem c
  | .inter left right, c => left.mem c && right.mem c
  | .compl set, c => !set.mem c
  | .folded set, c => (Text.caseVariants c).any set.mem
  | .foldedAscii set, c => set.mem c || set.mem (swapAscii c)

def single (c : Char) : CharSet :=
  .range c c

def all : CharSet :=
  .compl .empty

def diff (left right : CharSet) : CharSet :=
  .inter left (.compl right)

def symmDiff (left right : CharSet) : CharSet :=
  .diff (.union left right) (.inter left right)

def ofList (chars : List Char) : CharSet :=
  chars.foldr (fun c set => .union (.single c) set) .empty

/-- The union of some ranges. -/
def ofRanges (ranges : List (Char × Char)) : CharSet :=
  ranges.foldr (fun range set => .union (.range range.1 range.2) set) .empty

def newline : CharSet :=
  .single '\n'

def asciiDigit : CharSet :=
  .range '0' '9'

def asciiWord : CharSet :=
  ofRanges [('0', '9'), ('A', 'Z'), ('_', '_'), ('a', 'z')]

def asciiWhite : CharSet :=
  ofRanges [('\t', '\r'), (' ', ' ')]

end CharSet

end Marginalia
