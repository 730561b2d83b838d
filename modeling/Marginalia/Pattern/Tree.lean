/-! # Pattern trees

What the text of a pattern says, before its flags are applied: the parts of the
text and how they nest.
-/

namespace Marginalia.Pattern

/-- A switch that a pattern can set for the parts after it or within a group. -/
inductive Flag where
  | ignoreCase
  | multiLine
  | dotAll
  | swapGreed
  | unicode
  | crlf
  | verbose
  deriving DecidableEq, Repr

namespace Flag

def ofLetter? : Char → Option Flag
  | 'i' => some .ignoreCase
  | 'm' => some .multiLine
  | 's' => some .dotAll
  | 'U' => some .swapGreed
  | 'u' => some .unicode
  | 'R' => some .crlf
  | 'x' => some .verbose
  | _ => none

end Flag

/-- Flags that are switched on and flags that are switched off. -/
structure FlagChange where
  on : List Flag
  off : List Flag
  deriving DecidableEq, Repr

namespace FlagChange

def none : FlagChange :=
  ⟨[], []⟩

/-- A flag's state after the change. -/
def apply (change : FlagChange) (flag : Flag) (state : Bool) : Bool :=
  if change.on.contains flag then true
  else if change.off.contains flag then false
  else state

end FlagChange

/-- A class that has a letter of its own. -/
inductive ClassLetter where
  | digit
  | white
  | word
  deriving DecidableEq, Repr

/-- How two classes are combined inside brackets. -/
inductive ClassOperator where
  | intersection
  | difference
  | symmetricDifference
  deriving DecidableEq, Repr

/-- What stands between brackets. -/
inductive ClassTree where
  | nothing
  /-- One character; `byte` if it was given as a two-digit code. -/
  | char (c : Char) (byte : Bool)
  | range (low high : Char) (byte : Bool)
  | letter (name : ClassLetter) (negated : Bool)
  /-- A named class of ASCII characters. -/
  | ascii (ranges : List (Char × Char)) (negated : Bool)
  | property (name : String) (negated : Bool)
  | union (left right : ClassTree)
  | combined (operator : ClassOperator) (left right : ClassTree)
  | bracket (negated : Bool) (body : ClassTree)
  deriving Repr

/-- A test of a place, before flags say which one is meant. -/
inductive Anchor where
  | lineStart
  | lineEnd
  | textStart
  | textEnd
  | wordBorder
  | noWordBorder
  | wordStart
  | wordEnd
  | wordStartHalf
  | wordEndHalf
  deriving DecidableEq, Repr

inductive Tree where
  | empty
  | flags (change : FlagChange)
  | char (c : Char) (byte : Bool)
  | dot
  | anchor (anchor : Anchor)
  | charClass (body : ClassTree)
  | repetition (body : Tree) (least : Nat) (most : Option Nat)
  | group (change : FlagChange) (body : Tree)
  | sequence (parts : List Tree)
  | choice (branches : List Tree)
  deriving Repr

namespace ClassTree

/-- How deep brackets and operators nest. -/
def depth : ClassTree → Nat
  | .union left right => max left.depth right.depth
  | .combined _ left right => max left.depth right.depth + 1
  | .bracket _ body => body.depth + 1
  | _ => 0

end ClassTree

namespace Tree

mutual

/-- How deep groups, repetitions, sequences, choices and brackets nest. -/
def depth : Tree → Nat
  | .charClass body => body.depth
  | .repetition body _ _ => depth body + 1
  | .group _ body => depth body + 1
  | .sequence parts => depths parts + 1
  | .choice branches => depths branches + 1
  | _ => 0

def depths : List Tree → Nat
  | [] => 0
  | tree :: rest => max (depth tree) (depths rest)

end

/-- A sequence of parts; one part stands for itself. -/
def ofParts : List Tree → Tree
  | [] => .empty
  | [part] => part
  | parts => .sequence parts

/-- A choice between branches; one branch stands for itself. -/
def ofBranches : List Tree → Tree
  | [branch] => branch
  | branches => .choice branches

/-- Whether the tree can be repeated: flags and the empty text cannot. -/
def isRepeatable : Tree → Bool
  | .empty => false
  | .flags _ => false
  | _ => true

end Tree

end Marginalia.Pattern
