import Marginalia.Ignore.Glob
import Marginalia.Path
import Marginalia.Text.White

/-! # Ignore files

The lines of an ignore file are rules on paths below its directory. The last
rule that applies to a path decides whether it is ignored or kept.
-/

namespace Marginalia.Ignore

/-- What rules say about a path. -/
inductive Verdict where
  | ignored
  | kept
  deriving DecidableEq, Repr

structure Rule where
  pattern : Pattern
  verdict : Verdict
  /-- Applies to directories alone. -/
  directoriesOnly : Bool
  deriving Repr

namespace Rule

def applies (rule : Rule) (relative : List UInt8) (isDirectory : Bool) : Bool :=
  (!rule.directoriesOnly || isDirectory) && rule.pattern.matchesAll (byteChars relative)

end Rule

/-- Drops the white space after a rule, unless a blank is escaped. -/
def trimRule (line : List Char) : List Char :=
  if ['\\', ' '].isSuffixOf line then line else Text.trimEnd line

/-- Splits off what a line starts with: its verdict, and whether a slash ties it
to the directory of the file. -/
def readStart (line : List Char) : Verdict × Bool × List Char :=
  let slashed (verdict : Verdict) (line : List Char) : Verdict × Bool × List Char :=
    match line with
    | '/' :: rest => (verdict, true, rest)
    | _ => (verdict, false, line)
  match line with
  | '\\' :: '!' :: rest => (.ignored, false, '!' :: rest)
  | '\\' :: '#' :: rest => (.ignored, false, '#' :: rest)
  | '!' :: rest => slashed .kept rest
  | _ => slashed .ignored line

/-- Splits off the slash that limits a rule to directories, with a backslash
before it. -/
def readEnd (glob : List Char) : Bool × List Char :=
  match glob.reverse with
  | '/' :: '\\' :: rest => (true, rest.reverse)
  | '/' :: rest => (true, rest.reverse)
  | _ => (false, glob)

/-- Completes a glob: one that is not tied to a directory matches at any depth,
and two stars at the end match what is inside a directory, not the directory. -/
def completeGlob (tied : Bool) (glob : List Char) : List Char :=
  let anyDepth := ['*', '*', '/']
  let glob :=
    if tied || glob.contains '/' || anyDepth.isPrefixOf glob || glob == ['*', '*'] then glob
    else anyDepth ++ glob
  if ['/', '*', '*'].isSuffixOf glob then glob ++ ['/', '*'] else glob

/-- The rule on a line. Comments, blank lines and lines that hold no glob have
none. -/
def Rule.ofLine? (line : List Char) : Option Rule :=
  if line.head? = some '#' then none
  else
    match trimRule line with
    | [] => none
    | line =>
        let (verdict, tied, glob) := readStart line
        let (directoriesOnly, glob) := readEnd glob
        (globPattern? (completeGlob tied glob)).map fun pattern =>
          ⟨pattern, verdict, directoriesOnly⟩

/-- The lines of a file up to the first that is not UTF-8. -/
def decodedLines (content : List UInt8) : List (List Char) :=
  let pieces := Path.splitAt 0x0A content
  let ended := pieces.dropLast.map fun line =>
    if line.getLast? = some 0x0D then line.dropLast else line
  let lines := (ended ++ pieces.getLast?.toList).map Text.decode?
  (lines.takeWhile Option.isSome).filterMap fun line => line.map String.toList

/-- Drops the byte order marks at the start of the first line. -/
def dropMarks : List (List Char) → List (List Char)
  | [] => []
  | first :: rest => first.dropWhile (· = '\ufeff') :: rest

/-- The rules of an ignore file, in the order of its lines. -/
def rules (content : List UInt8) : List Rule :=
  (dropMarks (decodedLines content)).filterMap Rule.ofLine?

/-- What some rules say about a path: the last one that applies decides. -/
def verdict? (rules : List Rule) (relative : List UInt8) (isDirectory : Bool) :
    Option Verdict :=
  (rules.reverse.find? (·.applies relative isDirectory)).map Rule.verdict

end Marginalia.Ignore
