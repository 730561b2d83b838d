/-! # Comments

A comment found in program text: what it says, the line it starts on, and
whether it was written as a block.
-/

namespace Marginalia

structure Comment where
  /-- The text between the delimiters, or after the marker, kept verbatim. -/
  text : String
  /-- The line of the opening delimiter or marker, counted from one. -/
  line : Nat
  /-- Written with block delimiters, whether or not it spans several lines. -/
  multiline : Bool
  deriving DecidableEq, Repr, Inhabited

namespace Comment

/-- A comment that runs to the end of its line. -/
def single (text : String) (line : Nat) : Comment :=
  ⟨text, line, false⟩

/-- A comment between block delimiters. -/
def block (text : String) (line : Nat) : Comment :=
  ⟨text, line, true⟩

/-- The line on which the text ends. -/
def endLine (comment : Comment) : Nat :=
  comment.line + comment.text.toList.count '\n'

theorem line_le_endLine (comment : Comment) : comment.line ≤ comment.endLine :=
  Nat.le_add_right _ _

end Comment

end Marginalia
