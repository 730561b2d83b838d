import Marginalia.Proofs.CommentSpans
import Marginalia.Proofs.Nesting

/-! # Switching nesting on

A rule that counts depth and one that takes the first closing token end a comment
at the same place, unless an opening token starts inside the comment. A text
without such an opening token is therefore scanned alike with nesting and
without. Where the two differ, the comment that nests is the longer one.
-/

namespace Marginalia

/-- The token starts at one of the places of the body, read with what follows. -/
def Token.StartsIn (token : Token) (body after : List Char) : Prop :=
  ∃ place < body.length, token.chars <+: (body ++ after).drop place

theorem Token.StartsIn.cons {token : Token} {body after : List Char}
    (h : token.StartsIn body after) (c : Char) : token.StartsIn (c :: body) after := by
  obtain ⟨place, hplace, hstands⟩ := h
  exact ⟨place + 1, Nat.succ_lt_succ hplace, hstands⟩

/-! ## One comment -/

namespace BlockRule

/-- The same tokens, with nesting or without. -/
def withNesting (rule : BlockRule) (nesting : Bool) : BlockRule :=
  { rule with nesting := nesting }

/-- A body in which no token starts is cut into single characters. -/
theorem Marks.of_not_startsIn {rule : BlockRule} {body after : List Char}
    (hclosing : ¬ rule.closing.StartsIn body after)
    (hopening : ¬ rule.opening.StartsIn body after) :
    rule.Marks (body.map .other) (body ++ after) after := by
  induction body with
  | nil => exact .nil
  | cons c body ih =>
      refine .other (fun hstands => hclosing ⟨0, Nat.succ_pos _, hstands⟩)
        (fun hstands => hopening ⟨0, Nat.succ_pos _, hstands⟩) (ih ?_ ?_)
      · exact fun hstarts => hclosing (hstarts.cons c)
      · exact fun hstarts => hopening (hstarts.cons c)

/-- Without nesting, no closing token starts inside a comment. -/
theorem Closes.not_startsIn {rule : BlockRule} (hflat : rule.nesting = false)
    {body after : List Char} (h : rule.Closes body after) :
    ¬ rule.closing.StartsIn body (rule.closing.chars ++ after) := by
  rintro ⟨place, hplace, rest, hrest⟩
  have htext := List.take_append_drop place (body ++ (rule.closing.chars ++ after))
  rw [← hrest] at htext
  have hleast := h.first hflat _ rest htext.symm
  rw [List.length_take] at hleast
  omega

/-- The closing token of a comment in which no opening token starts closes it with
nesting as well. -/
theorem Closes.withNesting {rule : BlockRule} {body after : List Char}
    (h : (rule.withNesting false).Closes body after)
    (hopening : ¬ rule.opening.StartsIn body (rule.closing.chars ++ after)) :
    (rule.withNesting true).Closes body after := by
  refine ⟨fun hflat => absurd hflat Bool.noConfusion, fun _ => ⟨body.map .other, ?_, ?_⟩⟩
  · rw [← List.append_nil (body.map Mark.other), Nest.balanced_map_other_append, balanced_nil_iff]
  · exact Marks.of_not_startsIn (h.not_startsIn rfl) hopening

/-- Depth counting ends at a closing token, so the first one is there or earlier. -/
theorem exists_indexFrom?_of_balanceFrom? {rule : BlockRule} {body : List Char} {place : Nat}
    (h : rule.balanceFrom? 0 0 body = some place) :
    ∃ first ≤ place, rule.closing.indexFrom? 0 body = some first := by
  obtain ⟨marks, after, hmarks, rfl, -⟩ := balanceFrom?_eq_some_iff.mp h
  rw [hmarks.spell_append]
  exact rule.closing.exists_indexFrom?_le 0 (rule.spell marks) after

/-- A comment that is closed with nesting is closed without, and its text is then
a front of the other. -/
theorem exists_read?_of_withNesting {rule : BlockRule} {body long after : List Char}
    (h : (rule.withNesting true).read? body = some (.block (rule.withNesting true) long, after)) :
    ∃ short rest, (rule.withNesting false).read? body =
        some (.block (rule.withNesting false) short, rest) ∧ short <+: long := by
  obtain ⟨place, hplace, hfound⟩ := Option.map_eq_some_iff.mp h
  obtain ⟨first, hfirst, hindex⟩ := exists_indexFrom?_of_balanceFrom? hplace
  obtain ⟨hsegment, -⟩ := Prod.mk.inj hfound
  refine ⟨body.take first, _, Option.map_eq_some_iff.mpr ⟨first, hindex, rfl⟩, ?_⟩
  rw [← (Segment.block.inj hsegment).2]
  exact List.take_prefix_take_left hfirst

end BlockRule

/-! ## One segment -/

namespace Segment

/-- The segment as it is read with nesting or without. -/
def withNesting (nesting : Bool) : Segment → Segment
  | .block rule text => .block (rule.withNesting nesting) text
  | segment => segment

@[simp] theorem source_withNesting (nesting : Bool) (segment : Segment) :
    (segment.withNesting nesting).source = segment.source := by
  cases segment <;> rfl

@[simp] theorem comment?_withNesting (nesting : Bool) (segment : Segment) (line : Nat) :
    (segment.withNesting nesting).comment? line = segment.comment? line := by
  cases segment <;> rfl

theorem commentsFrom_map_withNesting (nesting : Bool) (line : Nat) (segments : List Segment) :
    commentsFrom line (segments.map (withNesting nesting)) = commentsFrom line segments := by
  induction segments generalizing line with
  | nil => rfl
  | cons segment segments ih =>
      rw [List.map_cons, commentsFrom, commentsFrom, comment?_withNesting, source_withNesting, ih]

end Segment

namespace Grammar

/-- The same rules, with block comments that nest or do not. -/
def withNesting (grammar : Grammar) (nesting : Bool) : Grammar :=
  { grammar with block := grammar.block.map (·.withNesting nesting) }

theorem block_withNesting {grammar : Grammar} {rule : BlockRule} (h : grammar.block = some rule)
    (nesting : Bool) :
    (grammar.withNesting nesting).block = some (rule.withNesting nesting) := by
  rw [withNesting, h, Option.map_some]

theorem NoBlock.withNesting {grammar : Grammar} {rule : BlockRule}
    (hrule : grammar.block = some rule) {text : List Char}
    (h : (grammar.withNesting false).NoBlock text) : (grammar.withNesting true).NoBlock text := by
  intro rule' hrule'
  obtain rfl := Option.some.inj ((block_withNesting hrule true).symm.trans hrule')
  exact h (rule.withNesting false) (block_withNesting hrule false)

/-- A segment is read with nesting as without, if it is no comment in which an
opening token starts. -/
theorem Reads.withNesting {grammar : Grammar} {rule : BlockRule}
    (hrule : grammar.block = some rule) {before : Option Char} {segment : Segment}
    {after : List Char} (h : (grammar.withNesting false).Reads before segment after)
    (hopening : ∀ body, segment = .block (rule.withNesting false) body →
      ¬ rule.opening.StartsIn body (rule.closing.chars ++ after)) :
    (grammar.withNesting true).Reads before (segment.withNesting true) after := by
  cases h with
  | verbatim hlisted hfirst => exact .verbatim hlisted hfirst
  | literal hverbatim hlisted hfirst hbody => exact .literal hverbatim hlisted hfirst hbody
  | openLiteral hverbatim hlisted hfirst hdangles =>
      exact .openLiteral hverbatim hlisted hfirst hdangles
  | @block rule' body _ hverbatim hliteral hlisted hcloses =>
      obtain rfl := Option.some.inj ((block_withNesting hrule false).symm.trans hlisted)
      exact .block hverbatim hliteral (block_withNesting hrule true)
        (hcloses.withNesting (hopening body rfl))
  | line hverbatim hliteral hblock hlisted hcounts hspans =>
      exact .line hverbatim hliteral (hblock.withNesting hrule) hlisted hcounts hspans
  | plain hverbatim hliteral hblock hline =>
      exact .plain hverbatim hliteral (hblock.withNesting hrule) hline

end Grammar

/-! ## Whole texts -/

namespace Segment

/-- The spans of the texts of block comments among consecutive segments, the first
of which starts at `start`. The tokens around a text do not belong to it. -/
def textSpansFrom (start : Nat) : List Segment → List Span
  | [] => []
  | .block rule text :: segments =>
      ⟨start + rule.opening.length, start + rule.opening.length + text.length⟩ ::
        textSpansFrom (start + (Segment.block rule text).source.length) segments
  | segment :: segments => textSpansFrom (start + segment.source.length) segments

theorem textSpansFrom_subset (start : Nat) (segment : Segment) (segments : List Segment) :
    textSpansFrom (start + segment.source.length) segments ⊆
      textSpansFrom start (segment :: segments) := by
  cases segment with
  | block rule text => exact List.subset_cons_self _ _
  | verbatim => exact List.Subset.refl _
  | literal => exact List.Subset.refl _
  | line => exact List.Subset.refl _
  | plain => exact List.Subset.refl _

/-- There is one span for each block comment, and what stands there is its text. -/
theorem forall₂_textSpansFrom {text front rest : List Char} {segments : List Segment}
    (htext : text = front ++ (sources segments ++ rest)) (line : Nat) :
    List.Forall₂ (fun comment span =>
        (text.drop span.start).take (span.stop - span.start) = comment.text.toList)
      ((commentsFrom line segments).filter (·.multiline))
      (textSpansFrom front.length segments) := by
  induction segments generalizing front line with
  | nil => exact .nil
  | cons segment segments ih =>
      have hnext : text = (front ++ segment.source) ++ (sources segments ++ rest) := by
        rw [htext, sources_cons, List.append_assoc, List.append_assoc]
      have htail := ih hnext (line + segment.source.count '\n')
      rw [List.length_append] at htail
      cases segment with
      | block rule body =>
          refine .cons ?_ htail
          have hbody : text = (front ++ rule.opening.chars) ++
              (body ++ (rule.closing.chars ++ (sources segments ++ rest))) := by
            simp [htext, source]
          rw [Nat.add_sub_cancel_left, ← Token.length_chars, ← List.length_append, hbody,
            List.drop_left, List.take_left]
          exact (String.toList_ofList ..).symm
      | line => exact htail
      | verbatim => exact htail
      | literal => exact htail
      | plain => exact htail

end Segment

namespace Grammar

/-- The spans of the texts of the block comments of a text. -/
def textSpans (grammar : Grammar) (text : List Char) : List Span :=
  Segment.textSpansFrom 0 (grammar.segments text).segments

/-- The segments of a text stay, up to nesting, if no opening token starts in the
span of a comment's text. -/
theorem Cuts.withNesting {grammar : Grammar} {rule : BlockRule}
    (hrule : grammar.block = some rule) {before : Option Char} {text rest : List Char}
    {segments : List Segment} (h : (grammar.withNesting false).Cuts before text segments rest)
    {start : Nat} (hopening : ∀ span ∈ Segment.textSpansFrom start segments, ∀ place,
      span.contains (start + place) = true → ¬ rule.opening.chars <+: text.drop place) :
    (grammar.withNesting true).Cuts before text (segments.map (·.withNesting true)) rest := by
  induction h generalizing start with
  | nil => exact .nil
  | @cons before segment after segments rest hreads htail ih =>
      have hfirst : ∀ body, segment = .block (rule.withNesting false) body →
          ¬ rule.opening.StartsIn body (rule.closing.chars ++ after) := by
        rintro body rfl ⟨place, hplace, hstands⟩
        have hinside : Span.contains
            ⟨start + rule.opening.length, start + rule.opening.length + body.length⟩
            (start + (rule.opening.length + place)) = true := by
          simp only [Span.contains, Bool.and_eq_true, decide_eq_true_eq]
          omega
        refine hopening _ List.mem_cons_self (rule.opening.length + place) hinside ?_
        rw [Segment.source_block_append, ← Token.length_chars, ← List.drop_drop,
          BlockRule.withNesting, List.drop_left]
        exact hstands
      have hlater : ∀ span ∈ Segment.textSpansFrom (start + segment.source.length) segments,
          ∀ place, span.contains (start + segment.source.length + place) = true →
            ¬ rule.opening.chars <+: after.drop place := by
        intro span hspan place hplace
        have htext := hopening span (Segment.textSpansFrom_subset _ _ _ hspan)
          (segment.source.length + place) (by rwa [← Nat.add_assoc])
        rwa [← List.drop_drop, List.drop_left] at htext
      rw [List.map_cons, ← segment.source_withNesting true]
      refine .cons (hreads.withNesting hrule hfirst) ?_
      rw [Segment.source_withNesting]
      exact ih hlater

/-- Each block comment that scanning reports has the span of its text, in the same
order. -/
theorem forall₂_textSpans {grammar : Grammar} {code : String} {comments : List Comment}
    (h : grammar.scan code = .ok comments) :
    List.Forall₂ (fun comment span =>
        (code.toList.drop span.start).take (span.stop - span.start) = comment.text.toList)
      (comments.filter (·.multiline)) (grammar.textSpans code.toList) := by
  obtain ⟨segments, hsegments, rfl⟩ := scan_eq_ok_iff.mp h
  rw [textSpans, hsegments.segments_eq]
  have htext : code.toList = [] ++ (Segment.sources segments ++ []) := hsegments.text_eq
  exact Segment.forall₂_textSpansFrom htext 1

/-- Nesting matters only where an opening token starts inside a comment. If a text
is scanned without nesting, there is a span for the text of each block comment, and
if no opening token starts in one of these spans, the text is scanned alike with
nesting. Depth counting never ends a comment before the first closing token, so
nesting can only lengthen a comment or leave it open. -/
theorem scan_withNesting {grammar : Grammar} {rule : BlockRule}
    (hrule : grammar.block = some rule) :
    (∀ code comments, (grammar.withNesting false).scan code = .ok comments →
      List.Forall₂ (fun comment span =>
          (code.toList.drop span.start).take (span.stop - span.start) = comment.text.toList)
        (comments.filter (·.multiline)) ((grammar.withNesting false).textSpans code.toList) ∧
      ((∀ span ∈ (grammar.withNesting false).textSpans code.toList, ∀ place,
          span.contains place = true → ¬ rule.opening.chars <+: code.toList.drop place) →
        (grammar.withNesting true).scan code = .ok comments)) ∧
    (∀ body place, rule.balanceFrom? 0 0 body = some place →
      ∃ first ≤ place, rule.closing.indexFrom? 0 body = some first) ∧
    (∀ body long after,
      (rule.withNesting true).read? body = some (.block (rule.withNesting true) long, after) →
      ∃ short rest, (rule.withNesting false).read? body =
          some (.block (rule.withNesting false) short, rest) ∧ short <+: long) := by
  refine ⟨fun code comments hscan => ⟨forall₂_textSpans hscan, ?_⟩,
    fun _ _ => BlockRule.exists_indexFrom?_of_balanceFrom?,
    fun _ _ _ => BlockRule.exists_read?_of_withNesting⟩
  intro hopening
  obtain ⟨segments, hsegments, rfl⟩ := scan_eq_ok_iff.mp hscan
  rw [textSpans, hsegments.segments_eq] at hopening
  have hnested : (grammar.withNesting true).IsSegmentation code.toList
      (segments.map (·.withNesting true)) :=
    Cuts.withNesting hrule hsegments fun span hspan place hplace =>
      hopening span hspan place (by rwa [Nat.zero_add] at hplace)
  rw [hnested.scan_eq, Segment.commentsFrom_map_withNesting]

/-- One dash opens a comment and two close it, so every closing token starts with
an opening one. -/
def dashes : Grammar where
  verbatim := []
  literals := []
  line := none
  block := some ⟨⟨'-', []⟩, ⟨'-', ['-']⟩, false⟩

theorem scan_withNesting_dashes :
    ((dashes.withNesting false).scan "-é--\n-b\n--" = .ok [.block "é" 1, .block "b\n" 2] ∧
      (∀ span ∈ (dashes.withNesting false).textSpans "-é--\n-b\n--".toList, ∀ place,
        span.contains place = true → ¬ ['-'] <+: "-é--\n-b\n--".toList.drop place) ∧
      (dashes.withNesting true).scan "-é--\n-b\n--" = .ok [.block "é" 1, .block "b\n" 2]) ∧
    (BlockRule.balanceFrom? ⟨⟨'-', []⟩, ⟨'-', ['-']⟩, false⟩ 0 0 "a-b--c--".toList = some 6 ∧
      ∃ first ≤ 6, Token.indexFrom? ⟨'-', ['-']⟩ 0 "a-b--c--".toList = some first) := by
  have hrule : dashes.block = some ⟨⟨'-', []⟩, ⟨'-', ['-']⟩, false⟩ := rfl
  obtain ⟨hagree, hfirst, -⟩ := scan_withNesting hrule
  have hscan : (dashes.withNesting false).scan "-é--\n-b\n--" =
      .ok [.block "é" 1, .block "b\n" 2] := by
    decide +kernel
  have hspans : (dashes.withNesting false).textSpans "-é--\n-b\n--".toList =
      [⟨1, 2⟩, ⟨6, 8⟩] := by
    decide +kernel
  have hopening : ∀ span ∈ (dashes.withNesting false).textSpans "-é--\n-b\n--".toList, ∀ place,
      span.contains place = true → ¬ ['-'] <+: "-é--\n-b\n--".toList.drop place := by
    intro span hspan place hplace
    have hbounded : ∀ span ∈ [(⟨1, 2⟩ : Span), ⟨6, 8⟩], ∀ place < 8,
        span.contains place = true → ¬ ['-'] <+: "-é--\n-b\n--".toList.drop place := by
      decide
    rw [hspans] at hspan
    have hstop : place < 8 := by
      simp only [Span.contains, Bool.and_eq_true, decide_eq_true_eq] at hplace
      simp only [List.mem_cons, List.not_mem_nil, or_false] at hspan
      rcases hspan with rfl | rfl
      · exact Nat.lt_trans hplace.2 (by decide)
      · exact hplace.2
    exact hbounded span hspan place hstop hplace
  have hbalance : BlockRule.balanceFrom? ⟨⟨'-', []⟩, ⟨'-', ['-']⟩, false⟩ 0 0
      "a-b--c--".toList = some 6 := by
    decide +kernel
  exact ⟨⟨hscan, hopening, (hagree _ _ hscan).2 hopening⟩, hbalance, hfirst _ _ hbalance⟩

end Grammar

end Marginalia
