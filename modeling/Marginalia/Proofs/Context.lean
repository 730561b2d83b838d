import Marginalia.Proofs.TokenGrammar

/-! # What a segment depends on

A segment is decided by its own characters and by the tokens that reach from
them into the text after it. If the text after it is replaced by one in which no
token reaches further than before, the same segment is read.
-/

namespace Marginalia

namespace Grammar

/-- Every token that any rule of the grammar looks for. -/
def tokens (grammar : Grammar) : List Token :=
  grammar.verbatim ++ grammar.block.toList.flatMap (fun rule => [rule.opening, rule.closing]) ++
    grammar.line.toList.map (·.marker)

theorem mem_tokens_of_verbatim {grammar : Grammar} {token : Token}
    (h : token ∈ grammar.verbatim) : token ∈ grammar.tokens :=
  List.mem_append_left _ (List.mem_append_left _ h)

theorem opening_mem_tokens {grammar : Grammar} {rule : BlockRule} (h : grammar.block = some rule) :
    rule.opening ∈ grammar.tokens := by
  simp [tokens, h]

theorem closing_mem_tokens {grammar : Grammar} {rule : BlockRule} (h : grammar.block = some rule) :
    rule.closing ∈ grammar.tokens := by
  simp [tokens, h]

theorem marker_mem_tokens {grammar : Grammar} {rule : LineRule} (h : grammar.line = some rule) :
    rule.marker ∈ grammar.tokens := by
  simp [tokens, h]

/-- The characters with which anything but a plain character can start. -/
def triggers (grammar : Grammar) : List Char :=
  grammar.verbatim.map (·.first) ++ grammar.literals.map (·.delimiter) ++
    grammar.line.toList.map (·.marker.first) ++ grammar.block.toList.map (·.opening.first)

theorem not_mem_triggers {grammar : Grammar} {c : Char}
    (htoken : ∀ token ∈ grammar.tokens, c ∉ token.chars)
    (hliteral : ∀ rule ∈ grammar.literals, rule.delimiter ≠ c) : c ∉ grammar.triggers := by
  have hfirst {token : Token} (hmem : token ∈ grammar.tokens) : token.first ≠ c :=
    fun heq => htoken token hmem (heq ▸ List.mem_cons_self)
  simp only [triggers, List.mem_append, List.mem_map, Option.mem_toList, not_or, not_exists,
    not_and]
  exact ⟨⟨⟨fun token hmem => hfirst (mem_tokens_of_verbatim hmem), hliteral⟩,
    fun rule hrule => hfirst (marker_mem_tokens hrule)⟩,
    fun rule hrule => hfirst (opening_mem_tokens hrule)⟩

/-- A character that starts nothing else stands for itself, wherever it is. -/
theorem Reads.of_not_mem_triggers {grammar : Grammar} {c : Char} (h : c ∉ grammar.triggers)
    (before : Option Char) (after : List Char) : grammar.Reads before (.plain c) after := by
  simp only [triggers, List.mem_append, List.mem_map, Option.mem_toList, not_or, not_exists,
    not_and] at h
  obtain ⟨⟨⟨hverbatim, hliteral⟩, hline⟩, hblock⟩ := h
  refine .plain ?_ ?_ ?_ ?_
  · intro token htoken
    exact Token.not_prefix_of_first_ne (hverbatim token htoken)
  · intro rule hrule hhead
    exact hliteral rule hrule (Option.some.inj hhead).symm
  · intro rule hrule
    exact Token.not_prefix_of_first_ne (hblock rule hrule)
  · intro rule hrule _
    exact Token.not_prefix_of_first_ne (hline rule hrule)

theorem Cuts.of_not_mem_triggers {grammar : Grammar} {text : List Char}
    (h : ∀ c ∈ text, c ∉ grammar.triggers) (before : Option Char) (after : List Char) :
    grammar.Cuts before (text ++ after) (text.map .plain) after := by
  induction text generalizing before with
  | nil => exact .nil
  | cons c rest ih =>
      have hrest : ∀ d ∈ rest, d ∉ grammar.triggers := fun d hd => h d (List.mem_cons_of_mem _ hd)
      exact .cons (.of_not_mem_triggers (h c List.mem_cons_self) before _) (ih hrest _)

/-- A token that reaches into the new text from some characters in front of it
reaches into the old text as well. -/
def Narrows (grammar : Grammar) (new old : List Char) : Prop :=
  ∀ token ∈ grammar.tokens, ∀ front, token.chars <+: front ++ new → token.chars <+: front ++ old

namespace Narrows

theorem append {grammar : Grammar} {new old : List Char} (h : grammar.Narrows new old)
    (middle : List Char) : grammar.Narrows (middle ++ new) (middle ++ old) := by
  intro token htoken front hstands
  rw [← List.append_assoc] at hstands ⊢
  exact h token htoken _ hstands

theorem noVerbatim {grammar : Grammar} {new old : List Char} (h : grammar.Narrows new old)
    {front : List Char} (hold : grammar.NoVerbatim (front ++ old)) :
    grammar.NoVerbatim (front ++ new) := by
  intro token htoken hstands
  exact hold token htoken (h token (mem_tokens_of_verbatim htoken) front hstands)

theorem noBlock {grammar : Grammar} {new old : List Char} (h : grammar.Narrows new old)
    {front : List Char} (hold : grammar.NoBlock (front ++ old)) :
    grammar.NoBlock (front ++ new) := by
  intro rule hrule hstands
  exact hold rule hrule (h rule.opening (opening_mem_tokens hrule) front hstands)

theorem noLine {grammar : Grammar} {new old : List Char} (h : grammar.Narrows new old)
    {before : Option Char} {front : List Char} (hold : grammar.NoLine before (front ++ old)) :
    grammar.NoLine before (front ++ new) := by
  intro rule hrule hcounts hstands
  exact hold rule hrule hcounts (h rule.marker (marker_mem_tokens hrule) front hstands)

/-- The marks of a text stay where they are when what follows them is narrowed. -/
theorem marks {grammar : Grammar} {new old : List Char} (h : grammar.Narrows new old)
    {rule : BlockRule} (hrule : grammar.block = some rule) {marks : List Mark}
    {text : List Char} (hmarks : rule.Marks marks text old) :
    rule.Marks marks (rule.spell marks ++ new) new := by
  have hclosing := h rule.closing (closing_mem_tokens hrule)
  have hopening := h rule.opening (opening_mem_tokens hrule)
  -- the end of the cut is an index of the induction, the narrowed text is not
  generalize hstop : old = stop at hmarks
  induction hmarks with
  | nil => exact .nil
  | closing _ ih =>
      rw [BlockRule.spell_cons_closing, List.append_assoc]
      exact .closing (ih hstop)
  | opening hnot htail ih =>
      rw [htail.spell_append, ← hstop, ← List.append_assoc] at hnot
      rw [BlockRule.spell_cons_opening, List.append_assoc]
      refine .opening ?_ (ih hstop)
      rw [← List.append_assoc]
      exact fun hstands => hnot (hclosing _ hstands)
  | other hnotClosing hnotOpening htail ih =>
      rw [htail.spell_append, ← hstop, ← List.cons_append] at hnotClosing hnotOpening
      rw [BlockRule.spell_cons_other, List.cons_append]
      refine .other ?_ ?_ (ih hstop)
      · rw [← List.cons_append]
        exact fun hstands => hnotClosing (hclosing _ hstands)
      · rw [← List.cons_append]
        exact fun hstands => hnotOpening (hopening _ hstands)

theorem closes {grammar : Grammar} {new old : List Char} (h : grammar.Narrows new old)
    {rule : BlockRule} (hrule : grammar.block = some rule) {body : List Char}
    (hcloses : rule.Closes body old) : rule.Closes body new := by
  refine ⟨?_, ?_⟩
  · intro hflat other rest heq
    -- a shorter body would put a closing token inside the old text as well
    rcases Nat.lt_or_ge other.length body.length with hshort | hlong
    · obtain ⟨tail, -, rfl, hstands⟩ := BlockRule.exists_earlier_closing heq hshort
      rw [← List.append_assoc] at hstands
      obtain ⟨rest', hrest'⟩ := h rule.closing (closing_mem_tokens hrule) _ hstands
      refine hcloses.first hflat other rest' ?_
      rw [hrest', List.append_assoc, List.append_assoc]
    · exact hlong
  · intro hnesting
    obtain ⟨marks, hbalanced, hmarks⟩ := hcloses.balanced hnesting
    have hbody := List.append_cancel_right hmarks.spell_append
    refine ⟨marks, hbalanced, ?_⟩
    have hnew := (h.append rule.closing.chars).marks hrule hmarks
    rwa [← hbody] at hnew

theorem spans {grammar : Grammar} {new old : List Char} (h : grammar.Narrows new old)
    {rule : LineRule} (hrule : grammar.line = some rule) {markers : Nat} {text : List Char}
    {carriage : Bool} (hspans : rule.Spans markers text carriage old)
    (hstops : ∀ c rest, new = c :: rest → c = '\n') : rule.Spans markers text carriage new :=
  { hspans with
    whole := fun hrepeat hstands =>
      hspans.whole hrepeat (h rule.marker (marker_mem_tokens hrule) _ hstands)
    stops := hstops }

end Narrows

theorem NoLiteral.of_head?_eq {grammar : Grammar} {new old : List Char}
    (h : grammar.NoLiteral old) (hhead : new.head? = old.head?) : grammar.NoLiteral new := by
  intro rule hrule
  rw [hhead]
  exact h rule hrule

/-- The same segment is read in a narrower text. A comment also needs a marker
that still counts, and any other segment that no marker has come to count. -/
theorem Reads.narrow {grammar : Grammar} {before before' : Option Char} {segment : Segment}
    {new old : List Char} (h : grammar.Reads before segment old)
    (hnarrow : grammar.Narrows new old)
    (hstops : (∀ c rest, old = c :: rest → c = '\n') → ∀ c rest, new = c :: rest → c = '\n')
    (hopen : ∀ rule body, segment = .literal rule body false → new = [])
    (hcounts : segment.isComment = true → ∀ rule, grammar.line = some rule →
      rule.CountsAfter before → rule.CountsAfter before')
    (hline : segment.isComment = false → grammar.NoLine before (segment.source ++ old) →
      grammar.NoLine before' (segment.source ++ old)) :
    grammar.Reads before' segment new := by
  obtain ⟨first, tail, hsource⟩ := h.exists_source_eq_cons
  have hhead : (segment.source ++ new).head? = (segment.source ++ old).head? := by
    rw [hsource]
    rfl
  cases h with
  | verbatim hlisted hfirst =>
      refine .verbatim hlisted ?_
      intro other hother hstands
      have hmem : other ∈ grammar.verbatim := hlisted ▸ List.mem_append_left _ hother
      exact hfirst other hother (hnarrow other (mem_tokens_of_verbatim hmem) _ hstands)
  | @literal _ _ rule body _ hverbatim hlisted hfirst hbody =>
      refine .literal ?_ hlisted hfirst hbody
      rw [← Segment.source_literal_append] at hverbatim ⊢
      exact hnarrow.noVerbatim hverbatim
  | openLiteral hverbatim hlisted hfirst hdangles =>
      -- whatever followed an open literal would become part of it
      obtain rfl := hopen _ _ rfl
      exact .openLiteral hverbatim hlisted hfirst hdangles
  | block hverbatim hliteral hlisted hcloses =>
      exact .block (hnarrow.noVerbatim hverbatim) (hliteral.of_head?_eq hhead) hlisted
        (hnarrow.closes hlisted hcloses)
  | line hverbatim hliteral hblock hlisted hcount hspans =>
      exact .line (hnarrow.noVerbatim hverbatim) (hliteral.of_head?_eq hhead)
        (hnarrow.noBlock hblock) hlisted (hcounts rfl _ hlisted hcount)
        (hnarrow.spans hlisted hspans (hstops hspans.stops))
  | @plain c _ hverbatim hliteral hblock hnone =>
      have hfront (after : List Char) : c :: after = [c] ++ after := rfl
      rw [hfront] at hverbatim hblock
      exact .plain (hnarrow.noVerbatim hverbatim) (hliteral.of_head?_eq hhead)
        (hnarrow.noBlock hblock) (hnarrow.noLine (hline rfl hnone))

end Grammar

end Marginalia
