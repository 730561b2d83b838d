import Marginalia.Pattern.CharSet

/-! # Patterns

Regular expressions over characters, with tests on the place between two
characters. A pattern is matched by its partial derivatives: the patterns that
remain to be matched after one character. A place is described by the characters
on either side, which is all that a test can see.
-/

namespace Marginalia

/-- A place between characters: what stands before it and after it. -/
structure Place where
  before : Option Char
  after : Option Char
  deriving DecidableEq, Repr

/-- A test of a place. The flag of the tests that concern words limits words to
ASCII characters. -/
inductive Assertion where
  | textStart
  | textEnd
  | lineStart
  | lineEnd
  /-- Line borders where a carriage return also ends a line. -/
  | anyLineStart
  | anyLineEnd
  | wordBorder (ascii : Bool)
  | noWordBorder (ascii : Bool)
  | wordStart (ascii : Bool)
  | wordEnd (ascii : Bool)
  | wordStartHalf (ascii : Bool)
  | wordEndHalf (ascii : Bool)
  deriving DecidableEq, Repr

namespace Assertion

/-- Whether there is a word character on one side. -/
def isWordSide (ascii : Bool) (side : Option Char) : Bool :=
  side.any fun c => if ascii then CharSet.asciiWord.mem c else Text.isWord c

def holds (place : Place) : Assertion → Bool
  | .textStart => place.before.isNone
  | .textEnd => place.after.isNone
  | .lineStart => place.before.all (· = '\n')
  | .lineEnd => place.after.all (· = '\n')
  | .anyLineStart =>
      place.before.all fun c => c = '\n' || (c = '\r' && place.after != some '\n')
  | .anyLineEnd =>
      place.after.all fun c => c = '\r' || (c = '\n' && place.before != some '\r')
  | .wordBorder ascii => isWordSide ascii place.before != isWordSide ascii place.after
  | .noWordBorder ascii => isWordSide ascii place.before == isWordSide ascii place.after
  | .wordStart ascii => !isWordSide ascii place.before && isWordSide ascii place.after
  | .wordEnd ascii => isWordSide ascii place.before && !isWordSide ascii place.after
  | .wordStartHalf ascii => !isWordSide ascii place.before
  | .wordEndHalf ascii => !isWordSide ascii place.after

end Assertion

inductive Pattern where
  | empty
  | one (set : CharSet)
  | look (assertion : Assertion)
  | seq (first second : Pattern)
  | alt (left right : Pattern)
  /-- At least `least` copies, and at most `most` if that is given. -/
  | rep (body : Pattern) (least : Nat) (most : Option Nat)
  deriving DecidableEq, Repr

namespace Pattern

/-- A pattern that nothing matches. -/
def fail : Pattern :=
  .one .empty

def char (c : Char) : Pattern :=
  .one (.single c)

/-- Any number of copies. -/
def star (body : Pattern) : Pattern :=
  .rep body 0 none

def optional (body : Pattern) : Pattern :=
  .rep body 0 (some 1)

def sequence (parts : List Pattern) : Pattern :=
  parts.foldr .seq .empty

def choice (parts : List Pattern) : Pattern :=
  parts.foldr .alt fail

/-- The given characters, one after the other. -/
def text (chars : List Char) : Pattern :=
  sequence (chars.map char)

/-- Whether the pattern matches the empty text at a place. -/
def nullable (place : Place) : Pattern → Bool
  | .empty => true
  | .one _ => false
  | .look assertion => assertion.holds place
  | .seq first second => first.nullable place && second.nullable place
  | .alt left right => left.nullable place || right.nullable place
  | .rep body least _ => least == 0 || body.nullable place

/-- A sequence, without an empty first part. -/
def andThen (first second : Pattern) : Pattern :=
  match first with
  | .empty => second
  | _ => .seq first second

/-- A repetition, without one that allows no copy. -/
def repeated (body : Pattern) (least : Nat) (most : Option Nat) : Pattern :=
  if most = some 0 then .empty else .rep body least most

/-- What remains of the pattern after the character `c` at a place: a text
starting with `c` matches the pattern there if what follows matches one of
these. Copies of a repeated body that match the empty text at this place can be
counted as done. -/
def derivatives (place : Place) (c : Char) : Pattern → List Pattern
  | .empty => []
  | .one set => if set.mem c then [.empty] else []
  | .look _ => []
  | .seq first second =>
      (first.derivatives place c).map (·.andThen second) ++
        if first.nullable place then second.derivatives place c else []
  | .alt left right => left.derivatives place c ++ right.derivatives place c
  | .rep body least most =>
      if most = some 0 then []
      else
        (body.derivatives place c).map
          (·.andThen (repeated body (if body.nullable place then 0 else least - 1)
            (most.map (· - 1))))

/-- Adds a pattern to those that are to be matched, once. -/
def insert (pattern : Pattern) (active : List Pattern) : List Pattern :=
  if active.contains pattern then active else pattern :: active

/-- What remains of some patterns after a character. -/
def step (place : Place) (c : Char) (active : List Pattern) : List Pattern :=
  active.foldl
    (fun found pattern => (pattern.derivatives place c).foldl (fun found rest => rest.insert found)
      found)
    []

/-- Whether one of the active patterns matches the whole rest of a text. -/
def matchesRest (before : Option Char) (active : List Pattern) : List Char → Bool
  | [] => active.any (nullable ⟨before, none⟩)
  | c :: rest => matchesRest (some c) (step ⟨before, some c⟩ c active) rest

/-- Whether the pattern matches a text as a whole. -/
def matchesAll (pattern : Pattern) (text : List Char) : Bool :=
  matchesRest none [pattern] text

/-- Whether one of the active patterns, or the pattern itself started anywhere in
the rest of a text, matches up to some place. -/
def occursFrom (pattern : Pattern) (before : Option Char) (active : List Pattern) :
    List Char → Bool
  | [] => (pattern.insert active).any (nullable ⟨before, none⟩)
  | c :: rest =>
      let place : Place := ⟨before, some c⟩
      let active := pattern.insert active
      active.any (nullable place) ||
        occursFrom pattern (some c) (step place c active) rest

/-- Whether the pattern matches some part of a text. -/
def occursIn (pattern : Pattern) (text : List Char) : Bool :=
  occursFrom pattern none [] text

end Pattern

end Marginalia
