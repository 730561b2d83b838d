import Marginalia.Proofs.Blocks
import Marginalia.Proofs.LineComments
import Marginalia.Proofs.Literals

/-! # The token grammar of a program text

What a segment may be is decided where it starts: a verbatim token, else a
literal, else a block comment, else a line comment, else one character. A text
has at most one segmentation under these rules, and every text can be cut by
them up to its end or to a block comment that never closes.
-/

namespace Marginalia

namespace Segment

theorem source_literal_append (rule : LiteralRule) (body after : List Char) :
    (Segment.literal rule body true).source ++ after =
      rule.delimiter :: (body ++ rule.delimiter :: after) := by
  rw [source, if_pos rfl, List.cons_append, List.append_assoc, List.singleton_append]

theorem source_openLiteral (rule : LiteralRule) (body : List Char) :
    (Segment.literal rule body false).source = rule.delimiter :: body := by
  rw [source, if_neg Bool.noConfusion, List.append_nil]

theorem source_block_append (rule : BlockRule) (body after : List Char) :
    (Segment.block rule body).source ++ after =
      rule.opening.chars ++ (body ++ (rule.closing.chars ++ after)) := by
  rw [source, List.append_assoc, List.append_assoc]

end Segment

namespace Grammar

/-- No verbatim token stands at the head of the text. -/
def NoVerbatim (grammar : Grammar) (text : List Char) : Prop :=
  ∀ token ∈ grammar.verbatim, ¬ token.chars <+: text

/-- No literal starts at the head of the text. -/
def NoLiteral (grammar : Grammar) (text : List Char) : Prop :=
  ∀ rule ∈ grammar.literals, text.head? ≠ some rule.delimiter

/-- No block comment opens at the head of the text. -/
def NoBlock (grammar : Grammar) (text : List Char) : Prop :=
  ∀ rule, grammar.block = some rule → ¬ rule.opening.chars <+: text

/-- No line comment opens at the head of the text. -/
def NoLine (grammar : Grammar) (before : Option Char) (text : List Char) : Prop :=
  ∀ rule, grammar.line = some rule → rule.CountsAfter before → ¬ rule.marker.chars <+: text

/-- The segment stands between the character `before` and the text `after`: its
own rule allows it there, and no rule that is tried earlier does. -/
inductive Reads (grammar : Grammar) (before : Option Char) : Segment → List Char → Prop where
  | verbatim {earlier later : List Token} {token : Token} {after : List Char}
      (listed : grammar.verbatim = earlier ++ token :: later)
      (first : ∀ other ∈ earlier, ¬ other.chars <+: token.chars ++ after) :
      Reads grammar before (.verbatim token) after
  | literal {earlier later : List LiteralRule} {rule : LiteralRule} {body after : List Char}
      (noVerbatim : grammar.NoVerbatim (rule.delimiter :: (body ++ rule.delimiter :: after)))
      (listed : grammar.literals = earlier ++ rule :: later)
      (first : ∀ other ∈ earlier, other.delimiter ≠ rule.delimiter)
      (encloses : rule.Encloses body) :
      Reads grammar before (.literal rule body true) after
  | openLiteral {earlier later : List LiteralRule} {rule : LiteralRule} {body : List Char}
      (noVerbatim : grammar.NoVerbatim (rule.delimiter :: body))
      (listed : grammar.literals = earlier ++ rule :: later)
      (first : ∀ other ∈ earlier, other.delimiter ≠ rule.delimiter)
      (dangles : rule.Dangles body) :
      Reads grammar before (.literal rule body false) []
  | block {rule : BlockRule} {body after : List Char}
      (noVerbatim : grammar.NoVerbatim ((Segment.block rule body).source ++ after))
      (noLiteral : grammar.NoLiteral ((Segment.block rule body).source ++ after))
      (listed : grammar.block = some rule)
      (closes : rule.Closes body after) :
      Reads grammar before (.block rule body) after
  | line {rule : LineRule} {markers : Nat} {text : List Char} {carriage : Bool}
      {after : List Char}
      (noVerbatim : grammar.NoVerbatim ((Segment.line rule markers text carriage).source ++ after))
      (noLiteral : grammar.NoLiteral ((Segment.line rule markers text carriage).source ++ after))
      (noBlock : grammar.NoBlock ((Segment.line rule markers text carriage).source ++ after))
      (listed : grammar.line = some rule)
      (counts : rule.CountsAfter before)
      (spans : rule.Spans markers text carriage after) :
      Reads grammar before (.line rule markers text carriage) after
  | plain {c : Char} {after : List Char}
      (noVerbatim : grammar.NoVerbatim (c :: after))
      (noLiteral : grammar.NoLiteral (c :: after))
      (noBlock : grammar.NoBlock (c :: after))
      (noLine : grammar.NoLine before (c :: after)) :
      Reads grammar before (.plain c) after

/-- A block comment opens at the head of the text and never closes. -/
structure Stuck (grammar : Grammar) (text : List Char) : Prop where
  noVerbatim : grammar.NoVerbatim text
  noLiteral : grammar.NoLiteral text
  opens : ∃ rule body, grammar.block = some rule ∧ text = rule.opening.chars ++ body ∧
    rule.Dangles body

/-- Consecutive segments between the character `before` and the rest of the
text, each read where the one in front of it ends. -/
inductive Cuts (grammar : Grammar) :
    Option Char → List Char → List Segment → List Char → Prop where
  | nil {before : Option Char} {rest : List Char} : Cuts grammar before rest [] rest
  | cons {before : Option Char} {segment : Segment} {after : List Char}
      {segments : List Segment} {rest : List Char}
      (reads : grammar.Reads before segment after)
      (tail : Cuts grammar segment.source.getLast? after segments rest) :
      Cuts grammar before (segment.source ++ after) (segment :: segments) rest

/-- The segments make up the whole text. -/
def IsSegmentation (grammar : Grammar) (text : List Char) (segments : List Segment) : Prop :=
  grammar.Cuts none text segments []

/-! ## One segment -/

theorem verbatimAt?_eq_none_iff {grammar : Grammar} {text : List Char} :
    grammar.verbatimAt? text = none ↔ grammar.NoVerbatim text := by
  simp only [verbatimAt?, NoVerbatim, List.findSome?_eq_none_iff, Option.map_eq_none_iff,
    Token.strip?_eq_none_iff]

theorem verbatimAt?_eq_some_iff {grammar : Grammar} {text after : List Char}
    {segment : Segment} :
    grammar.verbatimAt? text = some (segment, after) ↔
      ∃ earlier token later, grammar.verbatim = earlier ++ token :: later ∧
        (∀ other ∈ earlier, ¬ other.chars <+: text) ∧ segment = .verbatim token ∧
        text = token.chars ++ after := by
  simp only [verbatimAt?, List.findSome?_eq_some_iff, Option.map_eq_some_iff,
    Option.map_eq_none_iff, Token.strip?_eq_none_iff, Token.strip?_eq_some_iff, Prod.mk.injEq]
  constructor
  · rintro ⟨earlier, token, later, hlisted, ⟨rest, rfl, rfl, rfl⟩, hfirst⟩
    exact ⟨earlier, token, later, hlisted, hfirst, rfl, rfl⟩
  · rintro ⟨earlier, token, later, hlisted, hfirst, rfl, rfl⟩
    exact ⟨earlier, token, later, hlisted, ⟨after, rfl, rfl, rfl⟩, hfirst⟩

theorem literalAt?_eq_none_iff {grammar : Grammar} {c : Char} {rest : List Char} :
    grammar.literalAt? c rest = none ↔ grammar.NoLiteral (c :: rest) := by
  simp only [literalAt?, NoLiteral, Option.map_eq_none_iff, List.find?_eq_none, List.head?_cons,
    decide_eq_true_eq, ne_eq, Option.some.injEq]
  exact forall_congr' fun rule => forall_congr' fun _ => not_congr eq_comm

theorem literalAt?_eq_some_iff {grammar : Grammar} {c : Char} {rest : List Char}
    {found : Segment × List Char} :
    grammar.literalAt? c rest = some found ↔
      ∃ earlier rule later, grammar.literals = earlier ++ rule :: later ∧
        (∀ other ∈ earlier, other.delimiter ≠ c) ∧ rule.delimiter = c ∧
        rule.read rest = found := by
  simp only [literalAt?, Option.map_eq_some_iff, List.find?_eq_some_iff_append]
  constructor
  · rintro ⟨rule, ⟨hdelimiter, earlier, later, hlisted, hfirst⟩, hread⟩
    exact ⟨earlier, rule, later, hlisted, by simpa using hfirst, by simpa using hdelimiter, hread⟩
  · rintro ⟨earlier, rule, later, hlisted, hfirst, hdelimiter, hread⟩
    exact ⟨rule, ⟨by simpa using hdelimiter, earlier, later, hlisted, by simpa using hfirst⟩, hread⟩

theorem blockAt?_eq_some_iff {grammar : Grammar} {text body : List Char} {rule : BlockRule} :
    grammar.blockAt? text = some (rule, body) ↔
      grammar.block = some rule ∧ text = rule.opening.chars ++ body := by
  simp only [blockAt?, Option.bind_eq_some_iff, Option.map_eq_some_iff, Prod.mk.injEq,
    Token.strip?_eq_some_iff]
  constructor
  · rintro ⟨rule, hlisted, body, htext, rfl, rfl⟩
    exact ⟨hlisted, htext⟩
  · rintro ⟨hlisted, htext⟩
    exact ⟨rule, hlisted, body, htext, rfl, rfl⟩

theorem blockAt?_eq_none_iff {grammar : Grammar} {text : List Char} :
    grammar.blockAt? text = none ↔ grammar.NoBlock text := by
  simp only [blockAt?, NoBlock, Option.bind_eq_none_iff, Option.map_eq_none_iff,
    Token.strip?_eq_none_iff]

theorem lineAt?_eq_some_iff {grammar : Grammar} {before : Option Char} {text body : List Char}
    {rule : LineRule} :
    grammar.lineAt? before text = some (rule, body) ↔
      grammar.line = some rule ∧ rule.CountsAfter before ∧ text = rule.marker.chars ++ body := by
  simp only [lineAt?, Option.bind_eq_some_iff, Option.ite_none_right_eq_some,
    LineRule.admits_iff, Option.map_eq_some_iff, Prod.mk.injEq, Token.strip?_eq_some_iff]
  constructor
  · rintro ⟨rule, hlisted, hcounts, body, htext, rfl, rfl⟩
    exact ⟨hlisted, hcounts, htext⟩
  · rintro ⟨hlisted, hcounts, htext⟩
    exact ⟨rule, hlisted, hcounts, body, htext, rfl, rfl⟩

theorem lineAt?_eq_none_iff {grammar : Grammar} {before : Option Char} {text : List Char} :
    grammar.lineAt? before text = none ↔ grammar.NoLine before text := by
  simp only [lineAt?, NoLine, Option.bind_eq_none_iff, ite_eq_right_iff, LineRule.admits_iff,
    Option.map_eq_none_iff, Token.strip?_eq_none_iff]

/-- Every segment has a first character. -/
theorem Reads.exists_source_eq_cons {grammar : Grammar} {before : Option Char}
    {segment : Segment} {after : List Char} (h : grammar.Reads before segment after) :
    ∃ c rest, segment.source = c :: rest := by
  cases h with
  | verbatim => exact ⟨_, _, rfl⟩
  | literal => exact ⟨_, _, rfl⟩
  | openLiteral => exact ⟨_, _, rfl⟩
  | block => exact ⟨_, _, rfl⟩
  | plain => exact ⟨_, _, rfl⟩
  | line _ _ _ _ _ hspans =>
      obtain ⟨more, rfl⟩ := Nat.exists_eq_add_of_le' hspans.marked
      exact ⟨_, _, LineRule.source_line ..⟩

/-- What the rules allow at the head of a text is what is read there. -/
theorem Reads.next?_eq {grammar : Grammar} {before : Option Char} {segment : Segment}
    {after : List Char} (h : grammar.Reads before segment after) {c : Char} {rest : List Char}
    (htext : c :: rest = segment.source ++ after) :
    grammar.next? before c rest = some (segment, after) := by
  unfold next?
  cases h with
  | verbatim hlisted hfirst =>
      rw [verbatimAt?_eq_some_iff.mpr ⟨_, _, _, hlisted, htext ▸ hfirst, rfl, htext⟩]
  | @literal _ _ rule body _ hverbatim hlisted hfirst hbody =>
      rw [Segment.source_literal_append] at htext
      obtain ⟨rfl, rfl⟩ := List.cons.inj htext
      rw [verbatimAt?_eq_none_iff.mpr hverbatim]
      simp only [literalAt?_eq_some_iff.mpr
        ⟨_, _, _, hlisted, hfirst, rfl, LiteralRule.read_append hbody after⟩]
  | @openLiteral _ _ rule body hverbatim hlisted hfirst hdangles =>
      rw [Segment.source_openLiteral, List.append_nil] at htext
      obtain ⟨rfl, rfl⟩ := List.cons.inj htext
      rw [verbatimAt?_eq_none_iff.mpr hverbatim]
      simp only [literalAt?_eq_some_iff.mpr
        ⟨_, _, _, hlisted, hfirst, rfl, LiteralRule.read_of_dangles hdangles⟩]
  | @block rule body _ hverbatim hliteral hlisted hcloses =>
      rw [← htext] at hverbatim hliteral
      rw [Segment.source_block_append] at htext
      rw [verbatimAt?_eq_none_iff.mpr hverbatim, literalAt?_eq_none_iff.mpr hliteral,
        blockAt?_eq_some_iff.mpr ⟨hlisted, htext⟩]
      exact BlockRule.read?_eq_some_iff.mpr ⟨body, rfl, rfl, hcloses⟩
  | @line rule markers text carriage _ hverbatim hliteral hblock hlisted hcounts hspans =>
      rw [← htext] at hverbatim hliteral hblock
      obtain ⟨more, rfl⟩ := Nat.exists_eq_add_of_le' hspans.marked
      have hmarker := htext
      rw [LineRule.source_line, List.append_assoc] at hmarker
      rw [verbatimAt?_eq_none_iff.mpr hverbatim, literalAt?_eq_none_iff.mpr hliteral,
        blockAt?_eq_none_iff.mpr hblock, lineAt?_eq_some_iff.mpr ⟨hlisted, hcounts, hmarker⟩]
      exact congrArg some (LineRule.read_eq_of_spans hspans (hmarker.symm.trans htext))
  | plain hverbatim hliteral hblock hline =>
      obtain ⟨rfl, rfl⟩ := List.cons.inj htext
      rw [verbatimAt?_eq_none_iff.mpr hverbatim, literalAt?_eq_none_iff.mpr hliteral,
        blockAt?_eq_none_iff.mpr hblock, lineAt?_eq_none_iff.mpr hline]

theorem Stuck.next?_eq {grammar : Grammar} {c : Char} {rest : List Char}
    (h : grammar.Stuck (c :: rest)) (before : Option Char) :
    grammar.next? before c rest = none := by
  obtain ⟨rule, body, hlisted, htext, hdangles⟩ := h.opens
  unfold next?
  rw [verbatimAt?_eq_none_iff.mpr h.noVerbatim, literalAt?_eq_none_iff.mpr h.noLiteral,
    blockAt?_eq_some_iff.mpr ⟨hlisted, htext⟩]
  exact BlockRule.read?_eq_none_iff.mpr hdangles

/-- At every place some segment can be read, or a block comment never closes. -/
theorem exists_reads_or_stuck (grammar : Grammar) (before : Option Char) (c : Char)
    (rest : List Char) :
    (∃ segment after, c :: rest = segment.source ++ after ∧
      grammar.Reads before segment after) ∨ grammar.Stuck (c :: rest) := by
  -- the rules in the order of their priority, each ruled out before the next is tried
  cases hverbatim : grammar.verbatimAt? (c :: rest) with
  | some found =>
      obtain ⟨earlier, token, later, hlisted, hfirst, -, htext⟩ :=
        verbatimAt?_eq_some_iff.mp hverbatim
      exact .inl ⟨.verbatim token, found.2, htext, .verbatim hlisted (htext ▸ hfirst)⟩
  | none =>
  rw [verbatimAt?_eq_none_iff] at hverbatim
  cases hliteral : grammar.literalAt? c rest with
  | some found =>
      obtain ⟨earlier, rule, later, hlisted, hfirst, rfl, -⟩ := literalAt?_eq_some_iff.mp hliteral
      rcases rule.exists_enclosed_or_dangles rest with ⟨body, after, rfl, hbody⟩ | hdangles
      · refine .inl ⟨.literal rule body true, after, ?_, .literal hverbatim hlisted hfirst hbody⟩
        rw [Segment.source_literal_append]
      · refine .inl ⟨.literal rule rest false, [], ?_,
          .openLiteral hverbatim hlisted hfirst hdangles⟩
        rw [Segment.source_openLiteral, List.append_nil]
  | none =>
  rw [literalAt?_eq_none_iff] at hliteral
  cases hblock : grammar.blockAt? (c :: rest) with
  | some found =>
      obtain ⟨hlisted, htext⟩ := blockAt?_eq_some_iff.mp hblock
      cases hread : found.1.read? found.2 with
      | none =>
          exact .inr ⟨hverbatim, hliteral, found.1, found.2, hlisted, htext,
            BlockRule.read?_eq_none_iff.mp hread⟩
      | some block =>
          obtain ⟨body, -, hbody, hcloses⟩ := BlockRule.read?_eq_some_iff.mp hread
          have hsource : c :: rest = (Segment.block found.1 body).source ++ block.2 := by
            rw [htext, hbody, Segment.source_block_append]
          exact .inl ⟨.block found.1 body, block.2, hsource,
            .block (hsource ▸ hverbatim) (hsource ▸ hliteral) hlisted hcloses⟩
  | none =>
  rw [blockAt?_eq_none_iff] at hblock
  cases hline : grammar.lineAt? before (c :: rest) with
  | some found =>
      obtain ⟨hlisted, hcounts, htext⟩ := lineAt?_eq_some_iff.mp hline
      obtain ⟨markers, text, carriage, after, hbody, hspans⟩ := found.1.exists_spans found.2
      have hsource := htext.trans hbody
      exact .inl ⟨.line found.1 markers text carriage, after, hsource,
        .line (hsource ▸ hverbatim) (hsource ▸ hliteral) (hsource ▸ hblock) hlisted hcounts hspans⟩
  | none =>
      rw [lineAt?_eq_none_iff] at hline
      exact .inl ⟨.plain c, rest, rfl, .plain hverbatim hliteral hblock hline⟩

end Grammar

/-! ## Whole texts -/

namespace Segment

/-- The text that consecutive segments stand for. -/
def sources (segments : List Segment) : List Char :=
  segments.flatMap source

@[simp] theorem sources_nil : sources [] = [] := rfl

@[simp] theorem sources_cons (segment : Segment) (segments : List Segment) :
    sources (segment :: segments) = segment.source ++ sources segments := rfl

@[simp] theorem sources_append (first second : List Segment) :
    sources (first ++ second) = sources first ++ sources second :=
  List.flatMap_append

@[simp] theorem sources_map_plain (text : List Char) : sources (text.map .plain) = text := by
  induction text with
  | nil => rfl
  | cons c rest ih =>
      rw [List.map_cons, sources_cons, ih]
      rfl

end Segment

namespace Grammar

namespace Cuts

/-- The segments lose nothing of the text in front of the rest. -/
theorem text_eq {grammar : Grammar} {before : Option Char} {text rest : List Char}
    {segments : List Segment} (h : grammar.Cuts before text segments rest) :
    text = Segment.sources segments ++ rest := by
  induction h with
  | nil => rfl
  | cons _ _ ih => rw [Segment.sources_cons, List.append_assoc, ← ih]

theorem append {grammar : Grammar} {before : Option Char} {text middle rest : List Char}
    {first second : List Segment} (hfirst : grammar.Cuts before text first middle)
    (hsecond : grammar.Cuts ((Segment.sources first).getLast?.or before) middle second rest) :
    grammar.Cuts before text (first ++ second) rest := by
  induction hfirst with
  | nil => exact hsecond
  | @cons before segment after segments middle hreads _ ih =>
      refine .cons hreads (ih ?_)
      -- the segment is not empty, so the look-behind in front of it no longer shows
      obtain ⟨c, tail, hsource⟩ := hreads.exists_source_eq_cons
      rwa [Segment.sources_cons, List.getLast?_append, hsource, List.getLast?_cons, Option.or_assoc,
        Option.some_or, ← List.getLast?_cons, ← hsource] at hsecond

end Cuts

theorem segmentFrom_nil (grammar : Grammar) (before : Option Char) (done : Array Segment) :
    grammar.segmentFrom before done [] = ⟨done.toList, true⟩ := by
  rw [segmentFrom]

/-- One turn of the loop. -/
theorem segmentFrom_of_next?_eq_some {grammar : Grammar} {before : Option Char} {c : Char}
    {rest after : List Char} {segment : Segment}
    (h : grammar.next? before c rest = some (segment, after)) (done : Array Segment) :
    grammar.segmentFrom before done (c :: rest) =
      grammar.segmentFrom segment.source.getLast? (done.push segment) after := by
  rw [segmentFrom]
  split
  next hnone => exact absurd (hnone.symm.trans h) (Option.some_ne_none _).symm
  next segment' after' hsome =>
    obtain ⟨rfl, rfl⟩ := Prod.mk.inj (Option.some.inj (hsome.symm.trans h))
    rfl

theorem segmentFrom_of_next?_eq_none {grammar : Grammar} {before : Option Char} {c : Char}
    {rest : List Char} (h : grammar.next? before c rest = none) (done : Array Segment) :
    grammar.segmentFrom before done (c :: rest) = ⟨done.toList, false⟩ := by
  rw [segmentFrom]
  split
  next => rfl
  next segment after hsome => exact absurd (hsome.symm.trans h) (Option.some_ne_none _)

theorem Reads.segmentFrom_eq {grammar : Grammar} {before : Option Char} {segment : Segment}
    {after : List Char} (h : grammar.Reads before segment after) (done : Array Segment) :
    grammar.segmentFrom before done (segment.source ++ after) =
      grammar.segmentFrom segment.source.getLast? (done.push segment) after := by
  obtain ⟨c, rest, hsource⟩ := h.exists_source_eq_cons
  have hnext : grammar.next? before c (rest ++ after) = some (segment, after) :=
    h.next?_eq (by rw [hsource, List.cons_append])
  rw [← segmentFrom_of_next?_eq_some hnext, hsource, List.cons_append]

theorem Stuck.segmentFrom_eq {grammar : Grammar} {text : List Char} (h : grammar.Stuck text)
    (before : Option Char) (done : Array Segment) :
    grammar.segmentFrom before done text = ⟨done.toList, false⟩ := by
  obtain ⟨rule, body, -, rfl, -⟩ := h.opens
  exact segmentFrom_of_next?_eq_none (h.next?_eq before) done

/-- The loop passes over any consecutive segments that can be read. -/
theorem Cuts.segmentFrom_eq {grammar : Grammar} {before : Option Char} {text rest : List Char}
    {segments : List Segment} (h : grammar.Cuts before text segments rest) (done : Array Segment) :
    ∃ last, grammar.segmentFrom before done text =
      grammar.segmentFrom last (done ++ segments.toArray) rest := by
  induction h generalizing done with
  | nil => exact ⟨_, by rw [Array.append_empty]⟩
  | @cons before segment after segments rest hreads _ ih =>
      obtain ⟨last, hlast⟩ := ih (done.push segment)
      refine ⟨last, ?_⟩
      rw [hreads.segmentFrom_eq, hlast]
      simp

/-- Every text can be cut up to its end or to a block comment that never closes. -/
theorem exists_cuts (grammar : Grammar) (before : Option Char) (text : List Char) :
    ∃ segments rest, grammar.Cuts before text segments rest ∧
      (rest = [] ∨ grammar.Stuck rest) := by
  induction hlength : text.length using Nat.strongRecOn generalizing before text with
  | ind size ih =>
      cases text with
      | nil => exact ⟨[], [], .nil, .inl rfl⟩
      | cons c tail =>
          rcases grammar.exists_reads_or_stuck before c tail with
            ⟨segment, after, htext, hreads⟩ | hstuck
          · have hshorter : after.length < size := by
              obtain ⟨d, front, hsource⟩ := hreads.exists_source_eq_cons
              rw [← hlength, htext, hsource, List.length_append, List.length_cons]
              omega
            obtain ⟨segments, rest, hcuts, hend⟩ :=
              ih after.length hshorter segment.source.getLast? after rfl
            exact ⟨segment :: segments, rest, htext ▸ .cons hreads hcuts, hend⟩
          · exact ⟨[], c :: tail, .nil, .inr hstuck⟩

theorem IsSegmentation.segments_eq {grammar : Grammar} {text : List Char}
    {segments : List Segment} (h : grammar.IsSegmentation text segments) :
    grammar.segments text = ⟨segments, true⟩ := by
  obtain ⟨last, hlast⟩ := Cuts.segmentFrom_eq h #[]
  rw [Grammar.segments, hlast, segmentFrom_nil, Array.toList_append, List.nil_append]

theorem Cuts.segments_eq_of_stuck {grammar : Grammar} {text rest : List Char}
    {segments : List Segment} (h : grammar.Cuts none text segments rest)
    (hstuck : grammar.Stuck rest) : grammar.segments text = ⟨segments, false⟩ := by
  obtain ⟨last, hlast⟩ := h.segmentFrom_eq #[]
  rw [Grammar.segments, hlast, hstuck.segmentFrom_eq, Array.toList_append, List.nil_append]

theorem IsSegmentation.unique {grammar : Grammar} {text : List Char}
    {first second : List Segment} (hfirst : grammar.IsSegmentation text first)
    (hsecond : grammar.IsSegmentation text second) : first = second :=
  (Segmentation.mk.inj (hfirst.segments_eq.symm.trans hsecond.segments_eq)).1

end Grammar

end Marginalia
