import Marginalia.Comment
import Marginalia.Segment

/-! # Scanning

The comments of a program text: its comment segments, each with the line on
which it starts. A block comment that is never closed makes the whole text
unreadable; there is no partial result.
-/

namespace Marginalia

/-- A block comment opens on the given line and is never closed. -/
structure UnterminatedComment where
  line : Nat
  deriving DecidableEq, Repr

namespace UnterminatedComment

def message (failure : UnterminatedComment) : String :=
  "unterminated block comment starting on line " ++ ToString.toString failure.line

end UnterminatedComment

namespace Segment

/-- The comment that a segment starting on the given line stands for, if any. -/
def comment? (line : Nat) : Segment → Option Comment
  | .block _ text => some (.block (String.ofList text) line)
  | .line _ _ text _ => some (.single (String.ofList text) line)
  | _ => none

end Segment

namespace LineTable

/-- Passes over one segment: the offset after it, and the comments so far. -/
def passSegment (table : LineTable) (reached : Nat × Array Comment) (segment : Segment) :
    Nat × Array Comment :=
  let (offset, found) := reached
  (offset + segment.size,
    if segment.isComment then
      match segment.comment? (table.lineAt offset) with
      | some comment => found.push comment
      | none => found
    else found)

/-- The end of consecutive segments and the comments among them. -/
def passSegments (table : LineTable) (segments : List Segment) : Nat × Array Comment :=
  segments.foldl table.passSegment (0, #[])

end LineTable

namespace Grammar

/-- The comments of a text, in the order in which they stand. -/
def scan (grammar : Grammar) (code : String) : Except UnterminatedComment (List Comment) :=
  let text := code.toList
  let table := LineTable.ofText text
  let cut := grammar.segments text
  let (offset, comments) := table.passSegments cut.segments
  if cut.complete then .ok comments.toList else .error ⟨table.lineAt offset⟩

end Grammar

end Marginalia
