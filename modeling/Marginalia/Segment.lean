import Marginalia.Grammar
import Marginalia.LineTable

/-! # Segments

Program text is cut into consecutive segments, each decided where it starts by
the rules of a grammar. The segments lose nothing: their sources, put together,
are the text, unless a block comment opens and never closes.
-/

namespace Marginalia

inductive Segment where
  | verbatim (token : Token)
  /-- A string literal; one that is not closed runs to the end of the text. -/
  | literal (rule : LiteralRule) (body : List Char) (closed : Bool)
  | block (rule : BlockRule) (text : List Char)
  /-- A line comment, without the newline that ends it. -/
  | line (rule : LineRule) (markers : Nat) (text : List Char) (carriage : Bool)
  | plain (c : Char)
  deriving DecidableEq, Repr

namespace Segment

/-- The characters that the segment stands for. -/
def source : Segment → List Char
  | .verbatim token => token.chars
  | .literal rule body closed =>
      rule.delimiter :: (body ++ if closed then [rule.delimiter] else [])
  | .block rule text => rule.opening.chars ++ text ++ rule.closing.chars
  | .line rule markers text carriage =>
      (List.replicate markers rule.marker.chars).flatten ++ text ++
        if carriage then ['\r'] else []
  | .plain c => [c]

/-- The number of bytes that the segment takes in UTF-8. -/
def size (segment : Segment) : Nat :=
  utf8Length segment.source

def isComment : Segment → Bool
  | .block .. => true
  | .line .. => true
  | _ => false

end Segment

/-- Reads a literal from the text after its opening delimiter. -/
def LiteralRule.read (rule : LiteralRule) (text : List Char) : Segment × List Char :=
  match rule.closeFrom? 0 text with
  | some length => (.literal rule (text.take length) true, text.drop (length + 1))
  | none => (.literal rule text false, [])

/-- Reads a block comment from the text after its opening token; `none` if it is
never closed. -/
def BlockRule.read? (rule : BlockRule) (text : List Char) : Option (Segment × List Char) :=
  (rule.close? text).map fun length =>
    (.block rule (text.take length), text.drop (length + rule.closing.length))

/-- The number of markers that open a line comment, and the text after them,
given the text after the first. -/
def LineRule.openingRun (rule : LineRule) (text : List Char) : Nat × List Char :=
  if rule.repeatable then rule.marker.stripRun 1 text else (1, text)

/-- Reads a line comment from the text after its first marker. The text of the
comment stops before the newline, and before one carriage return in front of it
or of the end. -/
def LineRule.read (rule : LineRule) (text : List Char) : Segment × List Char :=
  let (markers, body) := rule.openingRun text
  let line := body.takeWhile (· ≠ '\n')
  (if line.getLast? = some '\r' then .line rule markers line.dropLast true
    else .line rule markers line false,
    body.dropWhile (· ≠ '\n'))

namespace Grammar

def verbatimAt? (grammar : Grammar) (text : List Char) : Option (Segment × List Char) :=
  grammar.verbatim.findSome? fun token =>
    (token.strip? text).map fun rest => (.verbatim token, rest)

def literalAt? (grammar : Grammar) (c : Char) (rest : List Char) :
    Option (Segment × List Char) :=
  (grammar.literals.find? (·.delimiter = c)).map (·.read rest)

/-- The rule and the text after the opening token, where a block comment opens. -/
def blockAt? (grammar : Grammar) (text : List Char) : Option (BlockRule × List Char) :=
  grammar.block.bind fun rule => (rule.opening.strip? text).map fun body => (rule, body)

/-- The rule and the text after the marker, where a line comment opens. -/
def lineAt? (grammar : Grammar) (before : Option Char) (text : List Char) :
    Option (LineRule × List Char) :=
  grammar.line.bind fun rule =>
    if rule.admits before then (rule.marker.strip? text).map fun body => (rule, body) else none

/-- The segment at the head of a text and what follows it, `before` being the
character in front of the text. `none` if a block comment opens there and is
never closed. -/
def next? (grammar : Grammar) (before : Option Char) (c : Char) (rest : List Char) :
    Option (Segment × List Char) :=
  match grammar.verbatimAt? (c :: rest) with
  | some found => some found
  | none =>
      match grammar.literalAt? c rest with
      | some found => some found
      | none =>
          match grammar.blockAt? (c :: rest) with
          | some (rule, body) => rule.read? body
          | none =>
              match grammar.lineAt? before (c :: rest) with
              | some (rule, body) => some (rule.read body)
              | none => some (.plain c, rest)

end Grammar

theorem LiteralRule.length_read_le (rule : LiteralRule) (text : List Char) :
    (rule.read text).2.length ≤ text.length := by
  unfold LiteralRule.read
  split <;> simp

theorem BlockRule.length_le_of_read? {rule : BlockRule} {text : List Char}
    {found : Segment × List Char} (h : rule.read? text = some found) :
    found.2.length ≤ text.length := by
  obtain ⟨length, -, rfl⟩ := Option.map_eq_some_iff.mp h
  simp

theorem LineRule.length_openingRun_le (rule : LineRule) (text : List Char) :
    (rule.openingRun text).2.length ≤ text.length := by
  unfold LineRule.openingRun
  split
  · exact Token.length_stripRun_le ..
  · exact Nat.le_refl _

theorem LineRule.length_read_le (rule : LineRule) (text : List Char) :
    (rule.read text).2.length ≤ text.length :=
  Nat.le_trans (List.dropWhile_sublist _).length_le (rule.length_openingRun_le text)

/-- Every segment takes at least one character. -/
theorem Grammar.length_lt_of_next? {grammar : Grammar} {before : Option Char} {c : Char}
    {rest : List Char} {found : Segment × List Char}
    (h : grammar.next? before c rest = some found) : found.2.length < (c :: rest).length := by
  unfold next? at h
  split at h
  · next found' hverbatim =>
      obtain rfl := Option.some.inj h
      obtain ⟨token, -, htoken⟩ := List.exists_of_findSome?_eq_some hverbatim
      obtain ⟨after, hstrip, rfl⟩ := Option.map_eq_some_iff.mp htoken
      exact Token.length_lt_of_strip? hstrip
  · split at h
    · next found' hliteral =>
        obtain rfl := Option.some.inj h
        obtain ⟨rule, -, rfl⟩ := Option.map_eq_some_iff.mp hliteral
        exact Nat.lt_succ_of_le (rule.length_read_le rest)
    · split at h
      · next rule body hblock =>
          obtain ⟨rule', -, hopen⟩ := Option.bind_eq_some_iff.mp hblock
          obtain ⟨body', hstrip, hpair⟩ := Option.map_eq_some_iff.mp hopen
          obtain ⟨rfl, rfl⟩ := Prod.mk.inj hpair
          exact Nat.lt_of_le_of_lt (BlockRule.length_le_of_read? h)
            (Token.length_lt_of_strip? hstrip)
      · split at h
        · next rule body hline =>
            obtain rfl := Option.some.inj h
            obtain ⟨rule', -, hmarker⟩ := Option.bind_eq_some_iff.mp hline
            split at hmarker
            · obtain ⟨body', hstrip, hpair⟩ := Option.map_eq_some_iff.mp hmarker
              obtain ⟨rfl, rfl⟩ := Prod.mk.inj hpair
              exact Nat.lt_of_le_of_lt (LineRule.length_read_le _ _)
                (Token.length_lt_of_strip? hstrip)
            · cases hmarker
        · obtain rfl := Option.some.inj h
          exact Nat.lt_succ_self _

/-- The segments of a text, up to its end or to a block comment that is never
closed. -/
structure Segmentation where
  segments : List Segment
  /-- The segments reach the end of the text. -/
  complete : Bool
  deriving DecidableEq, Repr

namespace Grammar

/-- Cuts the rest of a text into segments after those already `done`. -/
def segmentFrom (grammar : Grammar) (before : Option Char) (done : Array Segment)
    (text : List Char) : Segmentation :=
  match text with
  | [] => ⟨done.toList, true⟩
  | c :: rest =>
      match _hnext : grammar.next? before c rest with
      | none => ⟨done.toList, false⟩
      | some (segment, after) =>
          grammar.segmentFrom segment.source.getLast? (done.push segment) after
termination_by text.length
decreasing_by exact length_lt_of_next? _hnext

def segments (grammar : Grammar) (text : List Char) : Segmentation :=
  grammar.segmentFrom none #[] text

end Grammar

end Marginalia
