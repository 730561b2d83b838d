import Marginalia.Pattern.Basic

/-! # Globs of ignore files

The globs of ignore files match paths byte by byte: a byte is taken as the
character with its code. Stars and question marks do not match a slash, and two
stars that make up a whole component stand for any number of directories.
-/

namespace Marginalia.Ignore

/-- A byte as the character with its code. -/
def byteChar (byte : UInt8) : Char :=
  Char.ofNat byte.toNat

def byteChars (bytes : List UInt8) : List Char :=
  bytes.map byteChar

/-- A character as its bytes. -/
def charBytes (c : Char) : List Char :=
  byteChars (String.ofList [c]).toUTF8.toList

/-- A part of a glob. The parts made of two stars include the slashes around
them. -/
inductive Part where
  | pattern (inner : Pattern)
  | directoriesBefore
  | directoriesAfter
  | directoriesBetween
  deriving DecidableEq, Repr

namespace Part

def slash : Pattern :=
  .char '/'

def anything : Pattern :=
  .star (.one .all)

def notSlash : Pattern :=
  .one (.compl (.single '/'))

def toPattern : Part → Pattern
  | .pattern inner => inner
  | .directoriesBefore => .alt (.optional slash) (.seq anything slash)
  | .directoriesAfter => .seq slash anything
  | .directoriesBetween => .alt slash (.seq slash (.seq anything slash))

def literal (c : Char) : Part :=
  .pattern (.text (charBytes c))

def anyByte : Part :=
  .pattern notSlash

def star : Part :=
  .pattern (.star notSlash)

end Part

/-- The bytes between two characters, which stand for a range inside brackets:
of characters that take several bytes, the last byte of the first and the first
byte of the second are its ends. -/
def classRanges (range : Char × Char) : List (Char × Char) :=
  let low := charBytes range.1
  let high := charBytes range.2
  if range.1 = range.2 then low.map fun c => (c, c)
  else
    (low.dropLast.map fun c => (c, c)) ++
      [(low.getLast?.getD '\x00', high.headD '\x00')] ++
      (high.tail.map fun c => (c, c))

/-- Reads the members of a class up to its closing bracket, `inRange` after a
hyphen that makes a range of the latest member and the next. The outer `none`
says that a range is reversed, the inner one that the bracket is missing. -/
def readMembers (isFirst : Bool) (inRange : Bool) (found : List (Char × Char)) :
    List Char → Option (Option (List (Char × Char) × List Char))
  | [] => some none
  | c :: rest =>
      if c = ']' && !isFirst then
        some (some ((if inRange then ('-', '-') :: found else found).reverse, rest))
      else if c = '-' && !isFirst && !inRange then readMembers false true found rest
      else if inRange then
        match found with
        | (low, _) :: others =>
            if c < low then none else readMembers false false ((low, c) :: others) rest
        | [] => none
      else readMembers false false ((c, c) :: found) rest

/-- The outcome of reading a class. -/
inductive ClassReading where
  | found (part : Part) (rest : List Char)
  /-- There is no closing bracket, so the opening one stands for itself. -/
  | unclosed
  | reversed

/-- Reads a class from the text after its opening bracket. -/
def readClass (text : List Char) : ClassReading :=
  let (negated, body) :=
    match text with
    | '!' :: rest => (true, rest)
    | '^' :: rest => (true, rest)
    | _ => (false, text)
  match readMembers true false [] body with
  | none => .reversed
  | some none => .unclosed
  | some (some (ranges, rest)) =>
      let set := CharSet.ofRanges (ranges.flatMap classRanges)
      .found (.pattern (.one (if negated then .compl set else set))) rest

/-- How far a glob has been read: the parts of the branch at hand, the latest
first, and for each pair of braces around it the parts before the braces and the
branches that are done. -/
structure Progress where
  parts : List Part
  outer : List (List Part × List (List Part))
  /-- The character in front of the text that remains. -/
  before : Option Char
  /-- Some opening bracket had no closing one. -/
  bracketsAreLiteral : Bool

namespace Progress

def start : Progress :=
  ⟨[], [], none, false⟩

def push (progress : Progress) (part : Part) (before : Char) : Progress :=
  { progress with parts := part :: progress.parts, before := some before }

end Progress

/-- The pattern of some parts in a row. -/
def partsPattern (parts : List Part) : Pattern :=
  .sequence (parts.map Part.toPattern)

/-- Whether some parts can only match the empty text. -/
def isBlank (parts : List Part) : Bool :=
  parts.all (· = .pattern .empty)

/-- The choice between the branches of a pair of braces; blank ones do not
count. -/
def choicePart (branches : List (List Part)) : Part :=
  match branches.filter (!isBlank ·) with
  | [] => .pattern .empty
  | branches => .pattern (.choice (branches.map partsPattern))

/-- Reads two stars, given the text after them. Elsewhere than in a component of
their own they are two single stars. -/
def readStars (progress : Progress) (rest : List Char) : Progress × List Char :=
  let single : Progress × List Char := ((progress.push .star '*').push .star '*', rest)
  let inBraces := !progress.outer.isEmpty
  match progress.parts with
  | [] =>
      match rest with
      | [] => (progress.push .directoriesBefore '*', [])
      | c :: after =>
          if c = '/' then (progress.push .directoriesBefore '/', after) else single
  | last :: earlier =>
      let startsComponent :=
        progress.before = some '/' ||
          (inBraces && (progress.before = some ',' || progress.before = some '\x7b'))
      let replaceLast (part : Part) (before : Char) : Progress :=
        let kept :=
          match last with
          | .directoriesBefore => last
          | .directoriesAfter => last
          | _ => part
        { progress with parts := kept :: earlier, before := some before }
      if !startsComponent then single
      else
        match rest with
        | [] => (replaceLast .directoriesAfter '*', [])
        | c :: after =>
            if c = '/' then (replaceLast .directoriesBetween '/', after)
            else if inBraces && (c = ',' || c = '\x7d') then
              (replaceLast .directoriesAfter '*', rest)
            else single

/-- Reads the next part of a glob; `none` if it is no glob. -/
def readPart (progress : Progress) (c : Char) (rest : List Char) :
    Option (Progress × List Char) :=
  match c with
  | '?' => some (progress.push .anyByte c, rest)
  | '*' =>
      match rest with
      | '*' :: after => some (readStars progress after)
      | _ => some (progress.push .star c, rest)
  | '[' =>
      if progress.bracketsAreLiteral then some (progress.push (.literal c) c, rest)
      else
        match readClass rest with
        | .found part after => some (progress.push part ']', after)
        | .unclosed =>
            some ({ progress.push (.literal c) c with bracketsAreLiteral := true }, rest)
        | .reversed => none
  | '\x7b' =>
      some ({ progress with
        parts := []
        outer := (progress.parts, []) :: progress.outer
        before := some c }, rest)
  | '\x7d' =>
      match progress.outer with
      | [] => none
      | (parts, branches) :: outer =>
          let choice := choicePart ((progress.parts :: branches).map List.reverse).reverse
          some ({ progress with parts := choice :: parts, outer := outer, before := some c }, rest)
  | ',' =>
      match progress.outer with
      | [] => some (progress.push (.literal c) c, rest)
      | (parts, branches) :: outer =>
          some ({ progress with
            parts := []
            outer := (parts, progress.parts :: branches) :: outer
            before := some c }, rest)
  | '\\' =>
      match rest with
      | [] => none
      | d :: after => some (progress.push (.literal d) d, after)
  | c => some (progress.push (.literal c) c, rest)

/-- Reads parts to the end of the text. Every part takes a character, so the
length of the text is enough fuel. -/
def readParts : (fuel : Nat) → Progress → List Char → Option Progress
  | 0, _, _ => none
  | _ + 1, progress, [] => some progress
  | fuel + 1, progress, c :: rest =>
      match readPart progress c rest with
      | some (progress, rest) => readParts fuel progress rest
      | none => none

/-- The pattern of a glob, over bytes; `none` if it is no glob. Two stars alone
match everything. -/
def globPattern? (glob : List Char) : Option Pattern :=
  match readParts (glob.length + 1) .start glob with
  | none => none
  | some progress =>
      if !progress.outer.isEmpty then none
      else if progress.parts = [.directoriesBefore] then some Part.anything
      else some (partsPattern progress.parts.reverse)

end Marginalia.Ignore
