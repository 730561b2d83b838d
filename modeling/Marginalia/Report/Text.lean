import Marginalia.CommentedFile
import Marginalia.Report.Styled

/-! # Text reports

One record for each comment, `path:line: text`. A comment that spans lines has
the range of its lines in the header and its lines indented below. A report can
end with a tally of the comments and files in it.
-/

namespace Marginalia.Report

/-- The line of a comment, or its range of lines. -/
def lineRange (comment : Comment) : String :=
  if comment.line < comment.endLine then
    ToString.toString comment.line ++ "-" ++ ToString.toString comment.endLine
  else ToString.toString comment.line

def location (path : String) (comment : Comment) : List Span :=
  [.coloured .magenta path, .plain ":", .coloured .green (lineRange comment), .plain ":"]

/-- A line of a comment as it stands below the header. -/
def bodyLine (line : List Char) : String :=
  match Text.trimEnd line with
  | [] => "\n"
  | text => "    " ++ String.ofList text ++ "\n"

/-- What follows the header of a comment. -/
def body (comment : Comment) : String :=
  let text := comment.text.toList
  if text.contains '\n' then "\n" ++ String.join ((Text.lines text).map bodyLine)
  else " " ++ String.ofList (Text.trim text) ++ "\n"

def commentRecord (path : String) (comment : Comment) : List Span :=
  location path comment ++ [.plain (body comment)]

/-- The records of one file. -/
def fileRecords (file : CommentedFile) : List Span :=
  file.comments.flatMap (commentRecord file.path.display)

/-- How many comments and files a report holds. -/
structure Tally where
  comments : Nat
  files : Nat
  deriving DecidableEq, Repr

namespace Tally

def zero : Tally :=
  ⟨0, 0⟩

def add (tally : Tally) (file : CommentedFile) : Tally :=
  ⟨tally.comments + file.comments.length, tally.files + 1⟩

end Tally

/-- A number with its noun in the right form. -/
def counted (count : Nat) (noun : String) : String :=
  ToString.toString count ++ " " ++ noun ++ if count = 1 then "" else "s"

def summary (tally : Tally) : List Span :=
  [.plain "\n",
    .coloured .cyan (counted tally.comments "comment" ++ " in " ++ counted tally.files "file"),
    .plain "\n"]

/-- What can be asked of a text report that is being written. -/
inductive Call where
  | file (file : CommentedFile)
  | summary
  /-- Passes on what has been written and adds nothing to it. -/
  | flush
  deriving DecidableEq, Repr

/-- The tally after a call, and what the call writes. -/
def Tally.call (tally : Tally) : Call → Tally × List Span
  | .file file => (tally.add file, fileRecords file)
  | .summary => (tally, summary tally)
  | .flush => (tally, [])

/-- What some calls write, one after the other. -/
def callSpans (tally : Tally) : List Call → List Span
  | [] => []
  | call :: calls => (tally.call call).2 ++ callSpans (tally.call call).1 calls

end Marginalia.Report
