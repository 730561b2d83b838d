import Marginalia.Pattern.Basic
import Marginalia.Pattern.Reader

/-! # From pattern trees to patterns

Flags hold from where they are set to the end of the group around them, across
its branches. With them applied, each part of a tree becomes a pattern.
-/

namespace Marginalia.Pattern

/-- The flags that decide what a part of a pattern matches. -/
structure Flags where
  ignoreCase : Bool
  multiLine : Bool
  dotAll : Bool
  unicode : Bool
  crlf : Bool
  deriving DecidableEq, Repr

namespace Flags

def initial : Flags :=
  ⟨false, false, false, true, false⟩

def change (flags : Flags) (change : FlagChange) : Flags where
  ignoreCase := change.apply .ignoreCase flags.ignoreCase
  multiLine := change.apply .multiLine flags.multiLine
  dotAll := change.apply .dotAll flags.dotAll
  unicode := change.apply .unicode flags.unicode
  crlf := change.apply .crlf flags.crlf

/-- Closes a set under letter case, if case is ignored. -/
def fold (flags : Flags) (set : CharSet) : CharSet :=
  if !flags.ignoreCase then set
  else if flags.unicode then .folded set
  else .foldedAscii set

/-- The class that a letter names. -/
def letterSet (flags : Flags) : ClassLetter → CharSet
  | .digit => if flags.unicode then .digit else .asciiDigit
  | .white => if flags.unicode then .white else .asciiWhite
  | .word => if flags.unicode then .word else .asciiWord

/-- The test that an anchor stands for. -/
def assertion (flags : Flags) : Anchor → Assertion
  | .lineStart =>
      if !flags.multiLine then .textStart
      else if flags.crlf then .anyLineStart
      else .lineStart
  | .lineEnd =>
      if !flags.multiLine then .textEnd
      else if flags.crlf then .anyLineEnd
      else .lineEnd
  | .textStart => .textStart
  | .textEnd => .textEnd
  | .wordBorder => .wordBorder !flags.unicode
  | .noWordBorder => .noWordBorder !flags.unicode
  | .wordStart => .wordStart !flags.unicode
  | .wordEnd => .wordEnd !flags.unicode
  | .wordStartHalf => .wordStartHalf !flags.unicode
  | .wordEndHalf => .wordEndHalf !flags.unicode

/-- What a dot matches. -/
def dotSet (flags : Flags) : CharSet :=
  if flags.dotAll then .all
  else if flags.crlf then .compl (.ofList ['\r', '\n'])
  else .compl .newline

end Flags

/-- A property name without what does not count in it. -/
def propertyKey (name : String) : String :=
  String.ofList ((name.toList.filter fun c => !Text.isWhite c && c ≠ '_' && c ≠ '-').map
    Char.toLower)

/-- The characters with a property, for the few properties that are known here.
Patterns cannot name the other categories, nor scripts. -/
def property? (name : String) : Option CharSet :=
  match propertyKey name with
  | "any" => some .all
  | "ascii" => some (.range '\x00' '\x7f')
  | "nd" | "decimalnumber" => some .digit
  | "whitespace" | "wspace" | "space" => some .white
  | _ => none

def negateIf (negated : Bool) (set : CharSet) : CharSet :=
  if negated then .compl set else set

/-- Without Unicode, a class must not hold a byte that is no character. -/
def checkBytes (flags : Flags) (set : CharSet) : Except Problem CharSet :=
  if flags.unicode then .ok set
  else if (List.range 128).any fun n => set.mem (Char.ofNat (128 + n)) then .error .notText
  else .ok set

/-- The set that a class stands for. Letter case is ignored inside each pair of
brackets before a negation. -/
def ClassTree.set (flags : Flags) : ClassTree → Except Problem CharSet
  | .nothing => .ok .empty
  | .char c byte =>
      if flags.unicode || byte || c.toNat < 0x80 then .ok (.single c) else .error .unicodeNeeded
  | .range low high byte =>
      if flags.unicode || byte || high.toNat < 0x80 then .ok (.range low high)
      else .error .unicodeNeeded
  | .letter name negated => .ok (negateIf negated (flags.letterSet name))
  | .ascii ranges negated => .ok (negateIf negated (.ofRanges ranges))
  | .property name negated =>
      if flags.unicode then
        match property? name with
        | some set => .ok (negateIf negated (flags.fold set))
        | none => .error .unknownProperty
      else .error .unicodeNeeded
  | .union left right => do return .union (← left.set flags) (← right.set flags)
  | .combined operator left right => do
      let left := flags.fold (← left.set flags)
      let right := flags.fold (← right.set flags)
      match operator with
      | .intersection => return .inter left right
      | .difference => return .diff left right
      | .symmetricDifference => return .symmDiff left right
  | .bracket negated body => do
      return negateIf negated (flags.fold (← body.set flags))

/-- The pattern of one literal character. -/
def charPattern (flags : Flags) (c : Char) (byte : Bool) : Except Problem Pattern :=
  if !flags.unicode && byte then .error .notText
  else if !flags.ignoreCase then .ok (.char c)
  else if flags.unicode then .ok (.one (.ofList (Text.caseVariants c)))
  else .ok (.one (.foldedAscii (.single c)))

namespace Tree

mutual

/-- The pattern of a tree, and the flags that hold after it. -/
def compile (flags : Flags) : Tree → Except Problem (Pattern × Flags)
  | .empty => .ok (.empty, flags)
  | .flags change => .ok (.empty, flags.change change)
  | .char c byte => do return (← charPattern flags c byte, flags)
  | .dot => do return (.one (← checkBytes flags flags.dotSet), flags)
  | .anchor test => .ok (.look (flags.assertion test), flags)
  | .charClass body => do return (.one (← checkBytes flags (← body.set flags)), flags)
  | .repetition body least most => do
      let (pattern, flags) ← compile flags body
      return (.rep pattern least most, flags)
  | .group change body => do
      let (pattern, _) ← compile (flags.change change) body
      return (pattern, flags)
  | .sequence parts => compileSequence flags parts
  | .choice branches => compileChoice flags branches

def compileSequence (flags : Flags) : List Tree → Except Problem (Pattern × Flags)
  | [] => .ok (.empty, flags)
  | part :: rest => do
      let (first, flags) ← compile flags part
      let (second, flags) ← compileSequence flags rest
      return (first.andThen second, flags)

def compileChoice (flags : Flags) : List Tree → Except Problem (Pattern × Flags)
  | [] => .ok (.fail, flags)
  | branch :: rest => do
      let (left, flags) ← compile flags branch
      let (right, flags) ← compileChoice flags rest
      return (.alt left right, flags)

end

end Tree

end Pattern

/-- Why a text is not usable as a pattern. -/
inductive PatternFailure where
  | malformed (message : String)
  | tooLarge (limit : Nat)
  deriving DecidableEq, Repr

namespace PatternFailure

def message : PatternFailure → String
  | .malformed message => message
  | .tooLarge limit =>
      "Compiled regex exceeds size limit of " ++ ToString.toString limit ++ " bytes."

end PatternFailure

/-- An estimate of the bytes that the machine for a set would take. No such machine
is built. -/
def CharSet.weight : CharSet → Nat
  | .empty => 32
  | .range _ high => if high.toNat < 0x80 then 32 else 240
  | .word => 20000
  | .digit => 3000
  | .white => 500
  | .union left right => left.weight + right.weight
  | .inter left right => max left.weight right.weight
  | .compl set => set.weight + 240
  | .folded set => 2 * set.weight
  | .foldedAscii set => set.weight + 8

namespace Pattern

/-- An estimate of the bytes that the machine for a pattern would take: repeated parts
count once for each copy. -/
def weight : Pattern → Nat
  | .empty => 8
  | .one set => set.weight
  | .look _ => 32
  | .seq first second => first.weight + second.weight
  | .alt left right => left.weight + right.weight + 8
  | .rep body least most => max (most.getD (least + 1)) 1 * (body.weight + 8)

/-- The bytes that the machine for a pattern may take, by the estimate. -/
def weightLimit : Nat :=
  10485760

/-- The message for a text that is not a pattern. -/
def problemMessage (text : String) (problem : Problem) : String :=
  "regex parse error:\n    " ++ text ++ "\nerror: " ++ problem.message

/-- The pattern that a text describes. -/
def parse (text : String) : Except PatternFailure Pattern :=
  match Tree.read text.toList >>= Tree.compile .initial with
  | .error problem => .error (.malformed (problemMessage text problem))
  | .ok (pattern, _) =>
      if weightLimit < pattern.weight then .error (.tooLarge weightLimit) else .ok pattern

end Pattern

end Marginalia
