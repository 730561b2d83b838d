import Mathlib.Data.List.Forall2
import Marginalia.Proofs.Joining

/-! # The lines of comments

The line on which a comment ends is counted from its text alone, the line on
which it starts is looked up in the table of line ends. They agree, since no
opening token and no marker holds a newline. Comments do not overlap, and a line
comment leaves its line to itself.
-/

namespace Marginalia

theorem count_newline_le_utf8Length (text : List Char) : text.count '\n' ≤ utf8Length text := by
  induction text with
  | nil => exact Nat.le_refl _
  | cons c rest ih =>
      have hsize := c.utf8Size_pos
      rw [utf8Length_cons, List.count_cons]
      split <;> omega

namespace Comment

/-- What the comment says stands in the text up to the byte offset `stop`, and its
lines are those of the table of line ends. -/
structure EndsAt (text : List Char) (comment : Comment) (stop : Nat) : Prop where
  stands : ∃ front after, text = front ++ comment.text.toList ++ after ∧
    stop = utf8Length (front ++ comment.text.toList)
  line_pos : 1 ≤ comment.line
  endLine_eq : comment.endLine = (LineTable.ofText text).lineAt stop
  endLine_single : comment.multiline = false → comment.endLine = comment.line

theorem EndsAt.endLine_le {text : List Char} {comment : Comment} {stop : Nat}
    (h : comment.EndsAt text stop) : comment.endLine ≤ 1 + text.count '\n' := by
  obtain ⟨front, after, htext, hstop⟩ := h.stands
  rw [h.endLine_eq, hstop, htext, LineTable.lineAt_utf8Length]
  exact Nat.add_le_add_left ((List.prefix_append _ _).sublist.count_le _) _

/-- The line on which a comment ends can be added up in machine words, if it fits
into one. -/
theorem toNat_usize_add (comment : Comment) (h : comment.endLine < USize.size) :
    (USize.ofNat comment.line + USize.ofNat (comment.text.toList.count '\n')).toNat =
      comment.endLine := by
  rw [← USize.ofNat_add]
  exact USize.toNat_ofNat_of_lt' h

/-- The comment ends before the other starts, a line comment on an earlier line. -/
structure Precedes (comment other : Comment) : Prop where
  endLine_le : comment.endLine ≤ other.line
  endLine_lt : comment.multiline = false → comment.endLine < other.line

end Comment

/-! ## One comment -/

namespace Segment

/-- The byte offset right after what a comment says, when its segment starts at
`offset`. -/
def textEnd? (offset : Nat) : Segment → Option Nat
  | .block rule text => some (offset + utf8Length (rule.opening.chars ++ text))
  | .line rule markers text _ =>
      some (offset + utf8Length ((List.replicate markers rule.marker.chars).flatten ++ text))
  | _ => none

/-- The byte offsets right after what the comments among consecutive segments
say, the first segment starting at `offset`. -/
def textEndsFrom (offset : Nat) : List Segment → List Nat
  | [] => []
  | segment :: segments =>
      (segment.textEnd? offset).toList ++ textEndsFrom (offset + segment.size) segments

theorem textEnd?_eq_none {segment : Segment} {line : Nat} (h : segment.comment? line = none)
    (offset : Nat) : segment.textEnd? offset = none := by
  cases segment with
  | block => exact absurd h (Option.some_ne_none _)
  | line => exact absurd h (Option.some_ne_none _)
  | verbatim => rfl
  | literal => rfl
  | plain => rfl

/-- The segment writes the comment between an opening and an ending that hold no
newline. -/
structure Frames (segment : Segment) (comment : Comment) (opening ending : List Char) : Prop where
  source_eq : segment.source = opening ++ comment.text.toList ++ ending
  textEnd?_eq : ∀ offset,
    segment.textEnd? offset = some (offset + utf8Length (opening ++ comment.text.toList))
  opening : '\n' ∉ opening
  ending : '\n' ∉ ending

theorem Frames.count_source {segment : Segment} {comment : Comment} {opening ending : List Char}
    (h : segment.Frames comment opening ending) :
    segment.source.count '\n' = comment.text.toList.count '\n' := by
  rw [h.source_eq, List.count_append, List.count_append, List.count_eq_zero_of_not_mem h.opening,
    List.count_eq_zero_of_not_mem h.ending]
  omega

end Segment

namespace Grammar

/-- The byte offsets right after what the comments of a text say. -/
def textEnds (grammar : Grammar) (text : List Char) : List Nat :=
  Segment.textEndsFrom 0 (grammar.segments text).segments

/-- No delimiter of a comment holds a newline. -/
theorem Reads.exists_frames {grammar : Grammar} (hsolid : grammar.Solid) {before : Option Char}
    {segment : Segment} {after : List Char} (h : grammar.Reads before segment after) {line : Nat}
    {comment : Comment} (hcomment : segment.comment? line = some comment) :
    ∃ opening ending, segment.Frames comment opening ending := by
  cases h with
  | @block rule body _ _ _ hlisted _ =>
      obtain rfl := Option.some.inj hcomment
      refine ⟨rule.opening.chars, rule.closing.chars, ?_, ?_,
        (hsolid.token _ (opening_mem_tokens hlisted)).2,
        (hsolid.token _ (closing_mem_tokens hlisted)).2⟩
      · rw [Comment.block, String.toList_ofList, Segment.source]
      · intro offset
        rw [Comment.block, String.toList_ofList, Segment.textEnd?]
  | @line rule markers text carriage _ _ _ _ hlisted _ _ =>
      obtain rfl := Option.some.inj hcomment
      refine ⟨(List.replicate markers rule.marker.chars).flatten, LineRule.ending carriage,
        ?_, ?_, ?_, ?_⟩
      · rw [Comment.single, String.toList_ofList, Segment.source, LineRule.ending]
      · intro offset
        rw [Comment.single, String.toList_ofList, Segment.textEnd?]
      · exact LineRule.newline_not_mem_markers
          (hsolid.token _ (marker_mem_tokens hlisted)).2 markers
      · cases carriage <;> decide
  | verbatim => exact absurd hcomment (Option.some_ne_none _).symm
  | literal => exact absurd hcomment (Option.some_ne_none _).symm
  | openLiteral => exact absurd hcomment (Option.some_ne_none _).symm
  | plain => exact absurd hcomment (Option.some_ne_none _).symm

/-- A line comment says nothing across lines, and the end of its line follows it. -/
theorem Reads.single_line {grammar : Grammar} {before : Option Char} {segment : Segment}
    {after : List Char} (h : grammar.Reads before segment after) {line : Nat} {comment : Comment}
    (hcomment : segment.comment? line = some comment) (hsingle : comment.multiline = false) :
    '\n' ∉ comment.text.toList ∧ ∀ c rest, after = c :: rest → c = '\n' := by
  cases h with
  | line _ _ _ _ _ hspans =>
      obtain rfl := Option.some.inj hcomment
      rw [Comment.single, String.toList_ofList]
      exact ⟨hspans.oneLine, hspans.stops⟩
  | block =>
      obtain rfl := Option.some.inj hcomment
      exact absurd hsingle Bool.noConfusion
  | verbatim => exact absurd hcomment (Option.some_ne_none _).symm
  | literal => exact absurd hcomment (Option.some_ne_none _).symm
  | openLiteral => exact absurd hcomment (Option.some_ne_none _).symm
  | plain => exact absurd hcomment (Option.some_ne_none _).symm

/-! ## All comments of a text -/

theorem Solid.forall₂_endsAt {grammar : Grammar} (h : grammar.Solid) {text tail : List Char}
    (front : List Char) (htext : text = front ++ tail) {before : Option Char} {rest : List Char}
    {segments : List Segment} (hcuts : grammar.Cuts before tail segments rest) :
    List.Forall₂ (Comment.EndsAt text) (Segment.commentsFrom (1 + front.count '\n') segments)
      (Segment.textEndsFrom (utf8Length front) segments) := by
  induction hcuts generalizing front with
  | nil => exact .nil
  | @cons before segment after segments rest hreads _ ih =>
      have hlater := ih (front ++ segment.source) (by rw [htext, List.append_assoc])
      rw [List.count_append, ← Nat.add_assoc, utf8Length_append] at hlater
      rw [Segment.commentsFrom, Segment.textEndsFrom]
      cases hcomment : segment.comment? (1 + front.count '\n') with
      | none =>
          rw [Segment.textEnd?_eq_none hcomment]
          exact hlater
      | some comment =>
          obtain ⟨opening, ending, hframes⟩ := hreads.exists_frames h hcomment
          have hline := Segment.line_of_comment? hcomment
          have hstands : text =
              front ++ opening ++ comment.text.toList ++ (ending ++ after) := by
            rw [htext, hframes.source_eq]
            simp only [List.append_assoc]
          rw [hframes.textEnd?_eq]
          refine .cons ⟨⟨front ++ opening, ending ++ after, hstands, ?_⟩, ?_, ?_, ?_⟩ hlater
          · rw [List.append_assoc, ← utf8Length_append]
          · rw [hline]
            exact Nat.le_add_right _ _
          · rw [← utf8Length_append, ← List.append_assoc, hstands, LineTable.lineAt_utf8Length,
              List.count_append, List.count_append, List.count_eq_zero_of_not_mem hframes.opening,
              Comment.endLine, hline, Nat.add_zero, Nat.add_assoc]
          · intro hsingle
            rw [Comment.endLine,
              List.count_eq_zero_of_not_mem (hreads.single_line hcomment hsingle).1, Nat.add_zero]

end Grammar

theorem Segment.le_line_of_mem_commentsFrom {line : Nat} {segments : List Segment}
    {comment : Comment} (h : comment ∈ commentsFrom line segments) : line ≤ comment.line := by
  induction segments generalizing line with
  | nil => exact absurd h List.not_mem_nil
  | cons segment segments ih =>
      rw [commentsFrom, List.mem_append, Option.mem_toList] at h
      rcases h with hown | hlater
      · exact Nat.le_of_eq (line_of_comment? hown).symm
      · exact Nat.le_trans (Nat.le_add_right _ _) (ih hlater)

namespace Grammar

/-- At the end of a line, the comments to come are on later lines. -/
theorem Solid.lt_line_of_mem_commentsFrom {grammar : Grammar} (h : grammar.Solid)
    {before : Option Char} {text rest : List Char} {segments : List Segment}
    (hcuts : grammar.Cuts before text segments rest)
    (hstops : ∀ c rest, text = c :: rest → c = '\n') {line : Nat} {comment : Comment}
    (hmem : comment ∈ Segment.commentsFrom line segments) : line < comment.line := by
  cases hcuts with
  | nil => exact absurd hmem List.not_mem_nil
  | @cons _ segment after segments _ hreads _ =>
      obtain ⟨c, tail, hsource⟩ := hreads.exists_source_eq_cons
      have htext : segment.source ++ after = c :: (tail ++ after) := by
        rw [hsource, List.cons_append]
      obtain rfl := hstops c (tail ++ after) htext
      obtain ⟨rfl, -⟩ := h.eq_plain_newline hreads htext.symm
      exact Segment.le_line_of_mem_commentsFrom hmem

theorem Solid.pairwise_precedes {grammar : Grammar} (h : grammar.Solid) {before : Option Char}
    {text rest : List Char} {segments : List Segment}
    (hcuts : grammar.Cuts before text segments rest) (line : Nat) :
    (Segment.commentsFrom line segments).Pairwise Comment.Precedes := by
  induction hcuts generalizing line with
  | nil => exact .nil
  | @cons before segment after segments rest hreads htail ih =>
      rw [Segment.commentsFrom]
      cases hcomment : segment.comment? line with
      | none => exact ih _
      | some comment =>
          obtain ⟨opening, ending, hframes⟩ := hreads.exists_frames h hcomment
          -- the segment ends on the line on which its text does
          have hend : line + segment.source.count '\n' = comment.endLine := by
            rw [hframes.count_source, Comment.endLine, Segment.line_of_comment? hcomment]
          rw [hend]
          refine List.pairwise_cons.mpr ⟨?_, ih _⟩
          intro other hother
          refine ⟨Segment.le_line_of_mem_commentsFrom hother, ?_⟩
          intro hsingle
          exact h.lt_line_of_mem_commentsFrom htail (hreads.single_line hcomment hsingle).2 hother

end Grammar

namespace Language

/-- The lines of comments are consistent. Each comment ends on the line that the
table of line ends gives for the place right after its text, and not past the
last line; a line comment ends where it starts. Any two comments follow one
another, a line comment on an earlier line. Where a machine word can count one
byte more than the text has, it can also add up where a comment ends. -/
theorem scan_lines_agree (language : Language) {code : String} {comments : List Comment}
    (h : language.grammar.scan code = .ok comments) :
    List.Forall₂ (Comment.EndsAt code.toList) comments
        (language.grammar.textEnds code.toList) ∧
      comments.Pairwise Comment.Precedes ∧
      (∀ comment ∈ comments, comment.endLine ≤ 1 + code.toList.count '\n') ∧
      (1 + utf8Length code.toList < USize.size → ∀ comment ∈ comments,
        (USize.ofNat comment.line + USize.ofNat (comment.text.toList.count '\n')).toNat =
          comment.endLine) := by
  obtain ⟨segments, hsegments, rfl⟩ := Grammar.scan_eq_ok_iff.mp h
  have hends : List.Forall₂ (Comment.EndsAt code.toList) (Segment.commentsFrom 1 segments)
      (language.grammar.textEnds code.toList) := by
    rw [Grammar.textEnds, hsegments.segments_eq]
    exact language.solid.forall₂_endsAt [] rfl hsegments
  have hbound : ∀ comment ∈ Segment.commentsFrom 1 segments,
      comment.endLine ≤ 1 + code.toList.count '\n' :=
    ((List.forall₂_and_left _ _).mp (hends.imp fun _ _ hend => ⟨hend.endLine_le, hend⟩)).1
  refine ⟨hends, language.solid.pairwise_precedes hsegments 1, hbound, ?_⟩
  intro hword comment hcomment
  have hle := hbound comment hcomment
  have hcount := count_newline_le_utf8Length code.toList
  exact comment.toNat_usize_add (by omega)

theorem scan_lines_agree_lisp :
    lisp.grammar.scan "é #|a\r\n|#;; b\r\n#||#" =
        .ok [.block "a\r\n" 1, .single " b" 2, .block "" 3] ∧
      List.Forall₂ (Comment.EndsAt "é #|a\r\n|#;; b\r\n#||#".toList)
        [.block "a\r\n" 1, .single " b" 2, .block "" 3] [8, 14, 18] ∧
      [Comment.block "a\r\n" 1, .single " b" 2, .block "" 3].Pairwise Comment.Precedes := by
  have hscan : lisp.grammar.scan "é #|a\r\n|#;; b\r\n#||#" =
      .ok [.block "a\r\n" 1, .single " b" 2, .block "" 3] := by
    decide +kernel
  have hstops : lisp.grammar.textEnds "é #|a\r\n|#;; b\r\n#||#".toList = [8, 14, 18] := by
    decide +kernel
  obtain ⟨hends, hprecedes, -⟩ := scan_lines_agree lisp hscan
  exact ⟨hscan, hstops ▸ hends, hprecedes⟩

end Language

end Marginalia
