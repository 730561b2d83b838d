import Marginalia.Text.White

/-! # Comment grammars

What a reader of program text has to know about a language to tell its comments
from the rest: tokens to pass over, string literals, and how line and block
comments are written. Every token has at least one character, so reading one
always makes progress.
-/

namespace Marginalia

/-- A sequence of characters that is not empty. -/
structure Token where
  first : Char
  rest : List Char
  deriving DecidableEq, Repr

namespace Token

def chars (token : Token) : List Char :=
  token.first :: token.rest

def length (token : Token) : Nat :=
  token.rest.length + 1

def toString (token : Token) : String :=
  String.ofList token.chars

def ofString? (text : String) : Option Token :=
  match text.toList with
  | [] => none
  | first :: rest => some ⟨first, rest⟩

/-- The text after the token, when the text starts with it. -/
def strip? (token : Token) (text : List Char) : Option (List Char) :=
  if token.chars.isPrefixOf text then some (text.drop token.length) else none

/-- The place, counted from `offset`, where the token first occurs. -/
def indexFrom? (token : Token) (offset : Nat) : List Char → Option Nat
  | [] => none
  | c :: rest =>
      if token.chars.isPrefixOf (c :: rest) then some offset
      else token.indexFrom? (offset + 1) rest

/-- Drops the leading copies of the token and counts them, starting at `count`. -/
def stripRun (token : Token) (count : Nat) (text : List Char) : Nat × List Char :=
  match h : token.strip? text with
  | some rest => token.stripRun (count + 1) rest
  | none => (count, text)
termination_by text.length
decreasing_by
  unfold strip? at h
  split at h
  · next hprefix =>
      have hlength := List.IsPrefix.length_le (List.isPrefixOf_iff_prefix.mp hprefix)
      obtain rfl := Option.some.inj h
      simp only [chars, List.length_cons, List.length_drop, length] at hlength ⊢
      omega
  · cases h

@[simp] theorem length_chars (token : Token) : token.chars.length = token.length := rfl

theorem strip?_eq_some_iff {token : Token} {text rest : List Char} :
    token.strip? text = some rest ↔ text = token.chars ++ rest := by
  unfold strip?
  constructor
  · intro h
    split at h
    · next hprefix =>
        obtain ⟨tail, rfl⟩ := List.isPrefixOf_iff_prefix.mp hprefix
        obtain rfl := Option.some.inj h
        rw [← length_chars, List.drop_left]
    · cases h
  · rintro rfl
    rw [if_pos (List.isPrefixOf_iff_prefix.mpr (List.prefix_append _ _)), ← length_chars,
      List.drop_left]

theorem length_lt_of_strip? {token : Token} {text rest : List Char}
    (h : token.strip? text = some rest) : rest.length < text.length := by
  rw [strip?_eq_some_iff] at h
  subst h
  simp [length]

theorem length_stripRun_le (token : Token) (count : Nat) (text : List Char) :
    (token.stripRun count text).2.length ≤ text.length := by
  fun_induction stripRun token count text with
  | case1 count text rest h ih => exact Nat.le_trans ih (Nat.le_of_lt (length_lt_of_strip? h))
  | case2 count text h => exact Nat.le_refl _

end Token

/-- How a string literal is written. -/
structure LiteralRule where
  delimiter : Char
  /-- Takes the next character into the literal, whatever it is. -/
  escape : Option Char
  deriving DecidableEq, Repr

namespace LiteralRule

/-- The place of the closing delimiter, counted from `offset`, in the text after
the opening one. An escape is tested before the delimiter. -/
def closeFrom? (rule : LiteralRule) (offset : Nat) : List Char → Option Nat
  | [] => none
  | c :: rest =>
      if some c = rule.escape then
        match rest with
        | [] => none
        | _ :: more => rule.closeFrom? (offset + 2) more
      else if c = rule.delimiter then some offset
      else rule.closeFrom? (offset + 1) rest

end LiteralRule

/-- How a comment up to the end of the line is written. -/
structure LineRule where
  marker : Token
  /-- A run of markers opens one comment. -/
  repeatable : Bool
  /-- The marker counts only at the start of a word. -/
  wordStart : Bool
  deriving DecidableEq, Repr

namespace LineRule

/-- The characters after which a word can start, apart from white space. -/
def wordBreaks : List Char :=
  [';', '&', '|', '(', ')', '<', '>']

/-- Whether a marker counts after the given character, `none` at the start of
the text. -/
def admits (rule : LineRule) (before : Option Char) : Bool :=
  !rule.wordStart || before.all fun c => Text.isWhite c || wordBreaks.contains c

end LineRule

/-- How a delimited comment is written. -/
structure BlockRule where
  opening : Token
  closing : Token
  nesting : Bool
  deriving DecidableEq, Repr

namespace BlockRule

/-- The place, counted from `offset`, of the closing token that balances an
opening token before the text, `inner` further ones being open. At each place
the closing token is tested first, and a token is passed over whole. -/
def balanceFrom? (rule : BlockRule) (inner offset : Nat) (text : List Char) : Option Nat :=
  match text with
  | [] => none
  | c :: rest =>
      match _hclose : rule.closing.strip? (c :: rest) with
      | some after =>
          match inner with
          | 0 => some offset
          | outer + 1 => rule.balanceFrom? outer (offset + rule.closing.length) after
      | none =>
          match _hopen : rule.opening.strip? (c :: rest) with
          | some after => rule.balanceFrom? (inner + 1) (offset + rule.opening.length) after
          | none => rule.balanceFrom? inner (offset + 1) rest
termination_by text.length
decreasing_by
  · exact Token.length_lt_of_strip? _hclose
  · exact Token.length_lt_of_strip? _hopen
  · exact Nat.lt_succ_self _

/-- The place of the closing token in the text after the opening one. -/
def close? (rule : BlockRule) (text : List Char) : Option Nat :=
  if rule.nesting then rule.balanceFrom? 0 0 text else rule.closing.indexFrom? 0 text

end BlockRule

/-- Everything that can start at a place in program text, in the order in which
it is tried: verbatim tokens, literals, the block comment, the line comment. -/
structure Grammar where
  /-- Tokens that are passed over whole, the first listed one first. -/
  verbatim : List Token
  /-- Literal rules, the first listed one with a delimiter first. -/
  literals : List LiteralRule
  line : Option LineRule
  block : Option BlockRule
  deriving DecidableEq, Repr

end Marginalia
