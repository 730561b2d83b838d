import Mathlib.Logic.Relation
import Marginalia.Scan
import Marginalia.Proofs.Utf8

/-! # Scanning by byte offsets

A scanner that holds a text as bytes and knows its place in it as a byte offset.
It adds the lengths of what it has passed to the offset, compares bytes, and cuts
the text where the offset has come to. Nothing in it makes sure that a cut is
possible there, or that a loop gets on: what fails has the value `none`.
-/

namespace Marginalia

section Rounds

variable {σ ρ : Type}

/-- Repeats a round, which goes on to a further state or ends with a result. It fails if
a round fails, and if a round goes on without a greater offset or past the limit, as
the rounds might then never end. -/
def repeatRounds (offset : σ → Nat) (limit : Nat) (round : σ → Option (σ ⊕ ρ)) (state : σ) :
    Option ρ :=
  match round state with
  | none => none
  | some (.inr result) => some result
  | some (.inl next) =>
      if offset state < offset next ∧ offset next ≤ limit then
        repeatRounds offset limit round next
      else none
termination_by limit - offset state

/-- The rounds come from the first state to the second. -/
def Visits (round : σ → Option (σ ⊕ ρ)) : σ → σ → Prop :=
  Relation.ReflTransGen fun state next => round state = some (.inl next)

end Rounds

/-- The number of bytes of the first character, one if there is none. -/
def firstSize (text : String) : Nat :=
  text.toList.head?.elim 1 Char.utf8Size

namespace LiteralRule

/-- The offset just past the closing delimiter, in the text after the opening one,
which starts at `offset`. -/
def stopFrom? (rule : LiteralRule) (offset : Nat) : List Char → Option Nat
  | [] => none
  | c :: rest =>
      if some c = rule.escape then
        match rest with
        | [] => none
        | d :: more => rule.stopFrom? (offset + c.utf8Size + d.utf8Size) more
      else if c = rule.delimiter then some (offset + c.utf8Size)
      else rule.stopFrom? (offset + c.utf8Size) rest

/-- The offset just past the literal that opens at `start`. -/
def stop? (rule : LiteralRule) (code : String) (start : Nat) : Option Nat := do
  let inside := start + rule.delimiter.utf8Size
  let body ← slice? code inside code.utf8ByteSize
  some ((rule.stopFrom? inside body.toList).getD code.utf8ByteSize)

end LiteralRule

namespace BlockRule

/-- The search for the end of a nesting comment: how many comments are open, and the
offset that it has come to in the inside of the outermost. -/
structure DepthSearch where
  depth : Nat
  offset : Nat
  deriving DecidableEq, Repr

/-- One round of the search. It fails if a comment closes and none is open. -/
def depthRound (rule : BlockRule) (body : String) (search : DepthSearch) :
    Option (DepthSearch ⊕ Option Nat) :=
  if search.offset < body.utf8ByteSize then do
    let rest ← slice? body search.offset body.utf8ByteSize
    if rule.closing.begins rest then
      match search.depth with
      | 0 => none
      | 1 => some (.inr (some search.offset))
      | outer + 2 => some (.inl ⟨outer + 1, search.offset + rule.closing.size⟩)
    else if rule.opening.begins rest then
      some (.inl ⟨search.depth + 1, search.offset + rule.opening.size⟩)
    else some (.inl ⟨search.depth, search.offset + firstSize rest⟩)
  else some (.inr none)

/-- The offset of the closing token in the inside of a comment, if it has one. -/
def closeIn? (rule : BlockRule) (body : String) : Option (Option Nat) :=
  if rule.nesting then
    repeatRounds DepthSearch.offset body.utf8ByteSize (rule.depthRound body) ⟨1, 0⟩
  else some (rule.closing.offset? body)

end BlockRule

namespace LineRule

/-- Whether a marker counts at the offset. What stands in front is looked at only if
the marker must start a word. -/
def admitsAt? (rule : LineRule) (code : String) (offset : Nat) : Option Bool :=
  if rule.wordStart then
    (slice? code 0 offset).map fun front => rule.admits front.toList.getLast?
  else some true

/-- One round of passing over the markers that follow the first one. -/
def markerRound (rule : LineRule) (code : String) (start : Nat) : Option (Nat ⊕ Nat) := do
  let rest ← slice? code start code.utf8ByteSize
  some (if rule.marker.begins rest then .inl (start + rule.marker.size) else .inr start)

/-- The offset after the markers of the comment that opens at `start`. -/
def bodyStart? (rule : LineRule) (code : String) (start : Nat) : Option Nat :=
  if rule.repeatable then
    repeatRounds id code.utf8ByteSize (rule.markerRound code) (start + rule.marker.size)
  else some (start + rule.marker.size)

/-- Drops one carriage return at the end. -/
def trimCarriage (text : String) : String :=
  if text.toList.getLast? = some '\r' then String.ofList text.toList.dropLast else text

/-- What the comment that opens at `start` says, and the offset of the end of its
line. -/
def readAt? (rule : LineRule) (code : String) (start : Nat) : Option (String × Nat) := do
  let inside ← rule.bodyStart? code start
  let rest ← slice? code inside code.utf8ByteSize
  let stop := (Token.newline.offset? rest).elim code.utf8ByteSize (inside + ·)
  let text ← slice? code inside stop
  some (trimCarriage text, stop)

end LineRule

namespace Grammar

/-- The rule of the literal that starts at the head of a text. -/
def literalRule? (grammar : Grammar) (rest : String) : Option LiteralRule :=
  rest.toList.head?.bind fun c => grammar.literals.find? (·.delimiter = c)

/-- The rule of the block comment that opens at the head of a text. -/
def blockRule? (grammar : Grammar) (rest : String) : Option BlockRule :=
  grammar.block.filter (·.opening.begins rest)

/-- The rule of the line comment that opens at the offset, `rest` being the text from
there on. -/
def lineRule? (grammar : Grammar) (code : String) (offset : Nat) (rest : String) :
    Option (Option LineRule) :=
  match grammar.line with
  | none => some none
  | some rule =>
      if rule.marker.begins rest then
        (rule.admitsAt? code offset).map fun counts => if counts then some rule else none
      else some none

end Grammar

/-- What the scanner knows at the start of a round. -/
structure Scanner where
  offset : Nat
  comments : List Comment
  deriving DecidableEq, Repr

namespace Scanner

abbrev Result := Except UnterminatedComment (List Comment)

def start : Scanner :=
  ⟨0, []⟩

/-- Goes on at the offset `next`, with a comment found at the current one. -/
def found (scanner : Scanner) (code : String) (comment : Nat → Comment) (next : Nat) : Scanner :=
  ⟨next, scanner.comments ++ [comment ((LineTable.ofText code.toList).lineAt scanner.offset)]⟩

/-- Reads the block comment that opens at the current offset. -/
def readBlock (scanner : Scanner) (rule : BlockRule) (code : String) :
    Option (Scanner ⊕ Result) := do
  let inside := scanner.offset + rule.opening.size
  let body ← slice? code inside code.utf8ByteSize
  match ← rule.closeIn? body with
  | none => some (.inr (.error ⟨(LineTable.ofText code.toList).lineAt scanner.offset⟩))
  | some length =>
      let text ← slice? body 0 length
      some (.inl (scanner.found code (.block text) (inside + length + rule.closing.size)))

/-- Reads the line comment that opens at the current offset. -/
def readLine (scanner : Scanner) (rule : LineRule) (code : String) :
    Option (Scanner ⊕ Result) := do
  let (text, stop) ← rule.readAt? code scanner.offset
  some (.inl (scanner.found code (.single text) stop))

/-- One round: passes over what starts at the current offset. -/
def round (grammar : Grammar) (code : String) (scanner : Scanner) : Option (Scanner ⊕ Result) :=
  if scanner.offset < code.utf8ByteSize then do
    let rest ← slice? code scanner.offset code.utf8ByteSize
    let line ← grammar.lineRule? code scanner.offset rest
    match grammar.verbatim.find? (·.begins rest) with
    | some token => some (.inl ⟨scanner.offset + token.size, scanner.comments⟩)
    | none =>
        match grammar.literalRule? rest with
        | some rule =>
            let stop ← rule.stop? code scanner.offset
            some (.inl ⟨stop, scanner.comments⟩)
        | none =>
            match grammar.blockRule? rest, line with
            | some rule, _ => scanner.readBlock rule code
            | none, some rule => scanner.readLine rule code
            | none, none => some (.inl ⟨scanner.offset + firstSize rest, scanner.comments⟩)
  else some (.inr (.ok scanner.comments))

/-- The comments of a text, found by going through its bytes. -/
def run (grammar : Grammar) (code : String) : Option Result :=
  repeatRounds Scanner.offset code.utf8ByteSize (round grammar code) start

end Scanner

end Marginalia
