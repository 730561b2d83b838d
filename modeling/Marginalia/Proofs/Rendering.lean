import Marginalia.Language
import Marginalia.Proofs.Context
import Marginalia.Proofs.Nesting
import Marginalia.Proofs.Scanning

/-! # Scanning undoes rendering

A document is a list of items: plain text, verbatim tokens, literals, line
comments and block comments. Written one after the other, the items of a
document do not run into each other, and scanning what is written finds its
comments and nothing else.
-/

namespace Marginalia

/-- A piece of a document. -/
inductive Item where
  | plain (text : List Char)
  | verbatim (token : Token)
  | literal (rule : LiteralRule) (body : List Char)
  /-- A line comment with its line ending, a newline that may follow a carriage
  return. -/
  | line (rule : LineRule) (markers : Nat) (text : List Char) (carriage : Bool)
  | block (rule : BlockRule) (text : List Char)
  deriving DecidableEq, Repr

namespace Item

/-- The item, written out. -/
def render : Item → List Char
  | .plain text => text
  | .verbatim token => token.chars
  | .literal rule body => rule.delimiter :: (body ++ [rule.delimiter])
  | .line rule markers text carriage =>
      (List.replicate markers rule.marker.chars).flatten ++ text ++
        if carriage then ['\r', '\n'] else ['\n']
  | .block rule text => rule.opening.chars ++ text ++ rule.closing.chars

def renderAll (items : List Item) : List Char :=
  items.flatMap render

/-- The comment that an item starting on the given line stands for, if any. -/
def comment? (line : Nat) : Item → Option Comment
  | .line _ _ text _ => some (.single (String.ofList text) line)
  | .block _ text => some (.block (String.ofList text) line)
  | _ => none

/-- The comments of consecutive items, the first of which starts on the given
line. -/
def commentsFrom (line : Nat) : List Item → List Comment
  | [] => []
  | item :: items =>
      (item.comment? line).toList ++ commentsFrom (line + item.render.count '\n') items

/-- What an item may hold in a language. -/
inductive Fits (language : Language) : Item → Prop where
  /-- Plain text has no character with which anything else starts. -/
  | plain {text : List Char} (inert : ∀ c ∈ text, c ∉ language.grammar.triggers) :
      Fits language (.plain text)
  | verbatim {token : Token} (listed : token ∈ language.grammar.verbatim) :
      Fits language (.verbatim token)
  | literal {rule : LiteralRule} {body : List Char} (listed : rule ∈ language.grammar.literals)
      (units : rule.Units body) : Fits language (.literal rule body)
  | line {rule : LineRule} {markers : Nat} {text : List Char} {carriage : Bool}
      (listed : language.grammar.line = some rule)
      (marked : 1 ≤ markers)
      (single : rule.repeatable = false → markers = 1)
      (whole : rule.repeatable = true → ¬ rule.marker.chars <+: text)
      (oneLine : '\n' ∉ text)
      (trimmed : text.getLast? ≠ some '\r') :
      Fits language (.line rule markers text carriage)
  /-- In F#, a parenthesis after the opening token would make it an operator. -/
  | block {rule : BlockRule} {text : List Char}
      (listed : language.grammar.block = some rule)
      (flat : rule.nesting = false)
      (noClosing : ¬ rule.closing.chars <:+: text)
      (noOperator : language = .fsharp → text.head? ≠ some ')') :
      Fits language (.block rule text)
  | nested {rule : BlockRule} {nest : Nest}
      (listed : language.grammar.block = some rule)
      (nesting : rule.nesting = true)
      (fits : nest.Fits rule) :
      Fits language (.block rule (nest.render rule))

end Item

/-- Items that fit the language, each line comment standing where its marker
counts. -/
structure Document (language : Language) where
  items : List Item
  fits : ∀ item ∈ items, item.Fits language
  placed : ∀ front rule markers text carriage back,
    items = front ++ .line rule markers text carriage :: back →
      rule.CountsAfter (Item.renderAll front).getLast?

namespace Document

def render {language : Language} (document : Document language) : String :=
  String.ofList (Item.renderAll document.items)

def comments {language : Language} (document : Document language) : List Comment :=
  Item.commentsFrom 1 document.items

end Document

/-! ## Grammars whose items stay apart -/

/-- The rules of the grammar cannot be taken for one another. -/
structure Grammar.Separable (grammar : Grammar) : Prop where
  verbatim : grammar.verbatim.Pairwise Token.Apart
  literals : grammar.literals.Pairwise fun rule other => rule.delimiter ≠ other.delimiter
  closed : ∀ rule ∈ grammar.literals, rule.escape ≠ some rule.delimiter
  quoted : ∀ rule ∈ grammar.literals, ∀ token ∈ grammar.tokens, token.first ≠ rule.delimiter
  lineVerbatim : ∀ rule ∈ grammar.line, ∀ token ∈ grammar.verbatim,
    token.first ≠ rule.marker.first
  lineBlock : ∀ rule ∈ grammar.line, ∀ block ∈ grammar.block, block.opening.Apart rule.marker
  run : ∀ rule ∈ grammar.line, rule.repeatable = true →
    rule.marker.rest = [] ∧ rule.marker.first ∉ ['\r', '\n']
  newline : '\n' ∉ grammar.triggers
  clear : ∀ rule ∈ grammar.block, rule.closing.Clear rule.closing
  nestable : ∀ rule ∈ grammar.block, rule.nesting = true →
    rule.closing.Apart rule.opening ∧ rule.closing.Clear rule.opening ∧ rule.opening.length = 2

namespace Grammar.Separable

theorem reads_verbatim {grammar : Grammar} (h : grammar.Separable) {token : Token}
    (htoken : token ∈ grammar.verbatim) (before : Option Char) (after : List Char) :
    grammar.Reads before (.verbatim token) after := by
  obtain ⟨earlier, later, hlisted⟩ := List.append_of_mem htoken
  have hapart := h.verbatim
  rw [hlisted, List.pairwise_append] at hapart
  refine .verbatim hlisted ?_
  intro other hother
  exact (hapart.2.2 other hother token List.mem_cons_self).not_prefix_append after

theorem reads_literal {grammar : Grammar} (h : grammar.Separable) {rule : LiteralRule}
    (hrule : rule ∈ grammar.literals) {body : List Char} (hunits : rule.Units body)
    (before : Option Char) (after : List Char) :
    grammar.Reads before (.literal rule body true) after := by
  obtain ⟨earlier, later, hlisted⟩ := List.append_of_mem hrule
  have hapart := h.literals
  rw [hlisted, List.pairwise_append] at hapart
  refine .literal ?_ hlisted ?_ ⟨hunits, h.closed rule hrule⟩
  · intro token htoken
    exact Token.not_prefix_of_first_ne (h.quoted rule hrule token (mem_tokens_of_verbatim htoken))
  · intro other hother
    exact hapart.2.2 other hother rule List.mem_cons_self

theorem noLiteral {grammar : Grammar} (h : grammar.Separable) {token : Token}
    (htoken : token ∈ grammar.tokens) (after : List Char) :
    grammar.NoLiteral (token.chars ++ after) := by
  intro rule hrule hhead
  exact h.quoted rule hrule token htoken (Option.some.inj hhead)

/-- Neither the comment's own text nor the end of its line lengthens the run of
markers. -/
theorem whole {grammar : Grammar} (h : grammar.Separable) {rule : LineRule}
    (hrule : grammar.line = some rule) (hrepeat : rule.repeatable = true) {text : List Char}
    (hwhole : ¬ rule.marker.chars <+: text) (carriage : Bool) (after : List Char) :
    ¬ rule.marker.chars <+: text ++ LineRule.ending carriage ++ '\n' :: after := by
  obtain ⟨hrest, hfirst⟩ := h.run rule hrule hrepeat
  cases text with
  | nil =>
      rw [List.mem_cons, List.mem_singleton, not_or] at hfirst
      cases carriage with
      | true => exact Token.not_prefix_of_first_ne hfirst.1
      | false => exact Token.not_prefix_of_first_ne hfirst.2
  | cons c rest =>
      refine Token.not_prefix_of_first_ne ?_
      rintro rfl
      apply hwhole
      rw [Token.chars, hrest]
      exact List.cons_prefix_cons.mpr ⟨rfl, List.nil_prefix⟩

theorem reads_line {grammar : Grammar} (h : grammar.Separable) {rule : LineRule} {markers : Nat}
    {text : List Char} {carriage : Bool} {before : Option Char} {after : List Char}
    (hrule : grammar.line = some rule) (hcounts : rule.CountsAfter before)
    (hspans : rule.Spans markers text carriage after) :
    grammar.Reads before (.line rule markers text carriage) after := by
  obtain ⟨more, rfl⟩ := Nat.exists_eq_add_of_le' hspans.marked
  refine .line ?_ ?_ ?_ hrule hcounts hspans
  · intro token htoken
    rw [LineRule.source_line]
    exact Token.not_prefix_of_first_ne (h.lineVerbatim rule hrule token htoken)
  · rw [LineRule.source_line, List.append_assoc]
    exact h.noLiteral (marker_mem_tokens hrule) _
  · intro block hblock
    rw [LineRule.source_line, List.append_assoc]
    exact (h.lineBlock rule hrule block hblock).not_prefix_append _

theorem reads_block {grammar : Grammar} (h : grammar.Separable) {rule : BlockRule}
    {body : List Char} {after : List Char} (hrule : grammar.block = some rule)
    (hverbatim : grammar.NoVerbatim (rule.opening.chars ++ (body ++ (rule.closing.chars ++ after))))
    (hcloses : rule.Closes body after) (before : Option Char) :
    grammar.Reads before (.block rule body) after := by
  refine .block ?_ ?_ hrule hcloses
  · rw [Segment.source_block_append]
    exact hverbatim
  · rw [Segment.source_block_append]
    exact h.noLiteral (opening_mem_tokens hrule) _

theorem nestableRule {grammar : Grammar} (h : grammar.Separable) {rule : BlockRule}
    (hrule : grammar.block = some rule) (hnesting : rule.nesting = true) : rule.Nestable := by
  obtain ⟨hapart, hclear, hpair⟩ := h.nestable rule hrule hnesting
  exact ⟨hapart, h.clear rule hrule, hclear, hpair⟩

end Grammar.Separable

namespace Language

theorem separable (language : Language) : language.grammar.Separable := by
  cases language <;> constructor <;> decide

/-- A verbatim token and an opening token are apart, or differ by one further
parenthesis in F#. -/
theorem apart_or_operator {language : Language} {rule : BlockRule} {token : Token}
    (hrule : language.grammar.block = some rule) (htoken : token ∈ language.grammar.verbatim) :
    token.Apart rule.opening ∨ language = .fsharp ∧
      token.chars = rule.opening.chars ++ [')'] ∧ rule.closing.first ≠ ')' := by
  have hall : ∀ rule ∈ language.grammar.block, ∀ token ∈ language.grammar.verbatim,
      token.Apart rule.opening ∨ language = .fsharp ∧
        token.chars = rule.opening.chars ++ [')'] ∧ rule.closing.first ≠ ')' := by
    cases language <;> decide
  exact hall rule hrule token htoken

/-- No verbatim token stands where a block comment is written. -/
theorem noVerbatim_block {language : Language} {rule : BlockRule} {text : List Char}
    (hrule : language.grammar.block = some rule)
    (hoperator : language = .fsharp → text.head? ≠ some ')') (after : List Char) :
    language.grammar.NoVerbatim
      (rule.opening.chars ++ (text ++ (rule.closing.chars ++ after))) := by
  intro token htoken hstands
  rcases apart_or_operator hrule htoken with hapart | ⟨hlanguage, hchars, hclosing⟩
  · exact hapart.not_prefix_append _ hstands
  · -- only a parenthesis right after the opening token could complete the operator
    rw [hchars, List.prefix_append_right_inj] at hstands
    cases text with
    | nil => exact hclosing (List.cons_prefix_cons.mp hstands).1.symm
    | cons c rest =>
        apply hoperator hlanguage
        rw [List.head?_cons, (List.cons_prefix_cons.mp hstands).1]

end Language

/-! ## Documents -/

namespace Item

/-- The segments as which an item is read. -/
def segments : Item → List Segment
  | .plain text => text.map .plain
  | .verbatim token => [.verbatim token]
  | .literal rule body => [.literal rule body true]
  | .line rule markers text carriage => [.line rule markers text carriage, .plain '\n']
  | .block rule text => [.block rule text]

theorem sources_segments (item : Item) : Segment.sources item.segments = item.render := by
  cases item with
  | plain text => exact Segment.sources_map_plain text
  | verbatim token => exact List.append_nil _
  | literal rule body => exact List.append_nil _
  | block rule text => exact List.append_nil _
  | line rule markers text carriage =>
      cases carriage <;> simp [segments, render, Segment.source]

theorem commentsFrom_segments (line : Nat) (item : Item) :
    Segment.commentsFrom line item.segments = (item.comment? line).toList := by
  cases item with
  | plain text => exact Segment.commentsFrom_map_plain line text
  | verbatim token => rfl
  | literal rule body => rfl
  | block rule text => rfl
  | line rule markers text carriage => rfl

theorem commentsFrom_flatMap_segments (line : Nat) (items : List Item) :
    Segment.commentsFrom line (items.flatMap segments) = commentsFrom line items := by
  induction items generalizing line with
  | nil => rfl
  | cons item items ih =>
      rw [List.flatMap_cons, Segment.commentsFrom_append, commentsFrom_segments,
        sources_segments, ih, commentsFrom]

/-- An item is read as its own segments, whatever is written after it. -/
theorem Fits.cuts {language : Language} {item : Item} (h : item.Fits language)
    {before : Option Char}
    (hcounts : ∀ rule markers text carriage, item = .line rule markers text carriage →
      rule.CountsAfter before) (after : List Char) :
    language.grammar.Cuts before (item.render ++ after) item.segments after := by
  have hseparable := language.separable
  cases h with
  | plain hinert => exact .of_not_mem_triggers hinert before after
  | verbatim hlisted => exact .cons (hseparable.reads_verbatim hlisted before after) .nil
  | literal hlisted hunits =>
      exact .cons (hseparable.reads_literal hlisted hunits before after) .nil
  | @line rule markers text carriage hlisted hmarked hsingle hwhole honeLine htrimmed =>
      have hspans : rule.Spans markers text carriage ('\n' :: after) :=
        { marked := hmarked
          single := hsingle
          whole := fun hrepeat =>
            hseparable.whole hlisted hrepeat (hwhole hrepeat) carriage after
          oneLine := honeLine
          stops := fun c rest hafter => (List.cons.inj hafter).1.symm
          trimmed := fun _ => htrimmed }
      have hreads := hseparable.reads_line hlisted (hcounts _ _ _ _ rfl) hspans
      have hcuts := Grammar.Cuts.cons hreads
        (.cons (.of_not_mem_triggers hseparable.newline _ after) .nil)
      have hrender : (Segment.line rule markers text carriage).source ++ '\n' :: after =
          (Item.line rule markers text carriage).render ++ after := by
        cases carriage <;> simp [render, Segment.source]
      exact hrender ▸ hcuts
  | @block rule text hlisted hflat hclosing hoperator =>
      have hcloses := BlockRule.closes_of_not_infix hflat
        (hseparable.clear rule hlisted) hclosing after
      exact .cons (hseparable.reads_block hlisted
        (Language.noVerbatim_block hlisted hoperator after) hcloses before) .nil
  | @nested rule nest hlisted hnesting hfits =>
      have hcloses := Nest.closes_render (hseparable.nestableRule hlisted hnesting) hnesting
        hfits after
      have hoperator : language = .fsharp → (nest.render rule).head? ≠ some ')' := by
        rintro rfl
        obtain rfl := Option.some.inj hlisted
        exact absurd hnesting Bool.false_ne_true
      exact .cons (hseparable.reads_block hlisted
        (Language.noVerbatim_block hlisted hoperator after) hcloses before) .nil

end Item

namespace Document

/-- The items of a document are read one after the other. -/
theorem isSegmentation {language : Language} (document : Document language) :
    language.grammar.IsSegmentation (Item.renderAll document.items)
      (document.items.flatMap Item.segments) := by
  -- the items still to be read, with those in front of them as the look-behind
  have hrun : ∀ front back, document.items = front ++ back →
      language.grammar.Cuts (Item.renderAll front).getLast? (Item.renderAll back)
        (back.flatMap Item.segments) [] := by
    intro front back hitems
    induction back generalizing front with
    | nil => exact .nil
    | cons item back ih =>
        have hfits := document.fits item (hitems ▸ List.mem_append_right _ List.mem_cons_self)
        have hcounts : ∀ rule markers text carriage, item = .line rule markers text carriage →
            rule.CountsAfter (Item.renderAll front).getLast? := by
          rintro rule markers text carriage rfl
          exact document.placed front rule markers text carriage back hitems
        refine (hfits.cuts hcounts (Item.renderAll back)).append ?_
        have hnext := ih (front ++ [item])
          (by rw [hitems, List.append_assoc, List.singleton_append])
        rw [Item.renderAll, List.flatMap_append, List.flatMap_singleton, List.getLast?_append]
          at hnext
        rw [Item.sources_segments]
        exact hnext
  exact hrun [] document.items rfl

/-- Scanning undoes rendering: the comments of what a document is written as are
the comments of the document. -/
theorem scan_render {language : Language} (document : Document language) :
    language.grammar.scan document.render = .ok document.comments := by
  have hsegmentation := document.isSegmentation
  rw [← String.toList_ofList (l := Item.renderAll document.items)] at hsegmentation
  rw [render, hsegmentation.scan_eq, Item.commentsFrom_flatMap_segments, comments]

/-- A literal that looks like a comment, a nested comment whose texts end in the
first character of the closing token, and a line comment with more dashes. -/
def haskellSample : Document .haskell where
  items := [
    .literal ⟨'"', some '\\'⟩ ['{', '-', '\\', '"'],
    .block ⟨⟨'{', ['-']⟩, ⟨'-', ['}']⟩, true⟩
      ((Nest.comment ['a', '-'] (.text ['}', '\n', '-']) (.text ['-'])).render
        ⟨⟨'{', ['-']⟩, ⟨'-', ['}']⟩, true⟩),
    .line ⟨⟨'-', ['-']⟩, false, false⟩ 1 ['-', ' ', 'b'] true,
    .plain ['}', 'c']]
  fits := by
    intro item hitem
    simp only [List.mem_cons, List.not_mem_nil, or_false] at hitem
    rcases hitem with rfl | rfl | rfl | rfl
    · refine .literal (by decide) ?_
      exact .other (by decide) (by decide) (.other (by decide) (by decide) (.escaped rfl .nil))
    · exact .nested rfl rfl ⟨⟨by decide, by decide, by decide⟩, ⟨by decide, by decide, by decide⟩,
        ⟨by decide, by decide, by decide⟩⟩
    · exact .line rfl (by decide) (by decide) (by decide) (by decide) (by decide)
    · exact .plain (List.forall_mem_cons.mpr ⟨by decide, List.forall_mem_singleton.mpr (by decide)⟩)
  placed := by
    intro front rule markers text carriage back hitems hstart
    have hmem := List.mem_append_right front
      (List.mem_cons_self (a := Item.line rule markers text carriage) (l := back))
    rw [← hitems] at hmem
    simp only [List.mem_cons, List.not_mem_nil, or_false, reduceCtorEq, false_or,
      Item.line.injEq] at hmem
    rw [hmem.1] at hstart
    exact absurd hstart nofun

theorem scan_render_haskellSample :
    haskellSample.render =
        "\"\x7b-\\\"\"\x7b-a-\x7b-\x7d\n--\x7d--\x7d--- b\r\n\x7dc" ∧
      Language.haskell.grammar.scan haskellSample.render =
        .ok [.block "a-\x7b-\x7d\n--\x7d-" 1, .single "- b" 2] :=
  ⟨by decide, scan_render haskellSample⟩

end Document

end Marginalia
