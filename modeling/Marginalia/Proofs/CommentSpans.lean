import Mathlib.Data.List.Forall2
import Marginalia.Proofs.Scanning

/-! # The spans of comments

A comment takes the characters from its opening token or marker to the last one
before scanning goes on. The spans of the comments of a text tell its places
inside comments from those outside.
-/

namespace Marginalia

/-- A stretch of a text: the places from `start` up to, not including, `stop`. -/
structure Span where
  start : Nat
  stop : Nat
  deriving DecidableEq, Repr

def Span.contains (span : Span) (place : Nat) : Bool :=
  decide (span.start ≤ place) && decide (place < span.stop)

namespace Segment

/-- The spans of the comments among consecutive segments, the first of which
starts at `start`: from the opening token or marker to the last character that
the comment takes. -/
def commentSpansFrom (start : Nat) : List Segment → List Span
  | [] => []
  | segment :: segments =>
      let stop := start + segment.source.length
      if segment.isComment then ⟨start, stop⟩ :: commentSpansFrom stop segments
      else commentSpansFrom stop segments

theorem line_of_comment? {segment : Segment} {line : Nat} {comment : Comment}
    (h : segment.comment? line = some comment) : comment.line = line := by
  cases segment with
  | block _ text => exact congrArg Comment.line (Option.some.inj h).symm
  | line _ _ text _ => exact congrArg Comment.line (Option.some.inj h).symm
  | verbatim => exact absurd h (Option.some_ne_none _).symm
  | literal => exact absurd h (Option.some_ne_none _).symm
  | plain => exact absurd h (Option.some_ne_none _).symm

/-- There is one span for each comment, and what stands there is the source of a
segment that says what the comment says. -/
theorem forall₂_commentSpansFrom {text front rest : List Char} {segments : List Segment}
    (htext : text = front ++ (sources segments ++ rest)) (line : Nat) :
    List.Forall₂ (fun comment span => ∃ segment : Segment,
        segment.comment? comment.line = some comment ∧
        (text.drop span.start).take (span.stop - span.start) = segment.source)
      (commentsFrom line segments) (commentSpansFrom front.length segments) := by
  induction segments generalizing front line with
  | nil => exact .nil
  | cons segment segments ih =>
      have hnext : text = (front ++ segment.source) ++ (sources segments ++ rest) := by
        rw [htext, sources_cons, List.append_assoc, List.append_assoc]
      have htail := ih hnext (line + segment.source.count '\n')
      rw [List.length_append] at htail
      cases hcomment : segment.isComment with
      | false =>
          rw [commentsFrom, comment?_eq_none hcomment, commentSpansFrom, hcomment]
          exact htail
      | true =>
          obtain ⟨comment, hsome⟩ :=
            Option.isSome_iff_exists.mp ((segment.isSome_comment? line).trans hcomment)
          rw [commentsFrom, hsome, commentSpansFrom, hcomment]
          refine .cons ⟨segment, by rw [line_of_comment? hsome, hsome], ?_⟩ htail
          rw [htext, List.drop_left, Nat.add_sub_cancel_left, sources_cons, List.append_assoc,
            List.take_left]

theorem any_commentSpansFrom_of_lt {start place : Nat} (h : place < start)
    (segments : List Segment) :
    (commentSpansFrom start segments).any (·.contains place) = false := by
  induction segments generalizing start with
  | nil => rfl
  | cons segment segments ih =>
      have htail := ih (show place < start + segment.source.length by omega)
      unfold commentSpansFrom
      cases segment.isComment with
      | false => exact htail
      | true =>
          rw [if_pos rfl, List.any_cons, htail, Bool.or_false, Span.contains,
            decide_eq_false (Nat.not_le.mpr h), Bool.false_and]

theorem any_commentSpansFrom_cons {start place : Nat} (h : start ≤ place) (segment : Segment)
    (segments : List Segment) :
    (commentSpansFrom start (segment :: segments)).any (·.contains place) =
      if place < start + segment.source.length then segment.isComment
      else (commentSpansFrom (start + segment.source.length) segments).any (·.contains place) := by
  rw [commentSpansFrom]
  split
  next hcomment =>
    rw [List.any_cons, Span.contains, decide_eq_true h, Bool.true_and]
    split
    next hplace => rw [decide_eq_true hplace, Bool.true_or, hcomment]
    next hplace => rw [decide_eq_false hplace, Bool.false_or]
  next hcomment =>
    split
    next hplace =>
      rw [any_commentSpansFrom_of_lt hplace, Bool.eq_false_iff.mpr hcomment]
    next hplace => rfl

/-- What is done to the characters inside and outside the spans is done to the
sources of comments and of other segments. -/
theorem mapIdx_commentSpansFrom (inside outside : Char → Char) (start : Nat)
    (segments : List Segment) :
    (sources segments).mapIdx (fun place c =>
        if (commentSpansFrom start segments).any (·.contains (start + place)) then inside c
        else outside c) =
      segments.flatMap fun segment =>
        segment.source.map (if segment.isComment then inside else outside) := by
  induction segments generalizing start with
  | nil => rfl
  | cons segment segments ih =>
      rw [sources_cons, List.mapIdx_append, List.flatMap_cons,
        ← ih (start + segment.source.length)]
      congr 1
      -- inside the segment its own span decides, past it the later ones do
      · apply List.ext_getElem (by simp)
        intro place hplace hplace'
        have hown : (commentSpansFrom start (segment :: segments)).any
            (·.contains (start + place)) = segment.isComment := by
          rw [List.length_mapIdx] at hplace
          rw [any_commentSpansFrom_cons (Nat.le_add_right _ _),
            if_pos (Nat.add_lt_add_left hplace _)]
        rw [List.getElem_mapIdx, List.getElem_map, hown]
        split <;> rfl
      · congr 1
        funext place c
        have hshift : start + (place + segment.source.length) =
            start + segment.source.length + place := by
          omega
        have hlater : (commentSpansFrom start (segment :: segments)).any
            (·.contains (start + segment.source.length + place)) =
            (commentSpansFrom (start + segment.source.length) segments).any
              (·.contains (start + segment.source.length + place)) := by
          rw [any_commentSpansFrom_cons (by omega), if_neg (by omega)]
        rw [hshift, hlater]

end Segment

namespace Grammar

/-- The spans of the comments of a text. -/
def commentSpans (grammar : Grammar) (text : List Char) : List Span :=
  Segment.commentSpansFrom 0 (grammar.segments text).segments

/-- Whether a place of a text lies inside a comment. -/
def inComment (grammar : Grammar) (text : List Char) (place : Nat) : Bool :=
  (grammar.commentSpans text).any (·.contains place)

/-- Each comment that scanning reports has its span, in the same order. -/
theorem forall₂_commentSpans {grammar : Grammar} {code : String} {comments : List Comment}
    (h : grammar.scan code = .ok comments) :
    List.Forall₂ (fun comment span => ∃ segment : Segment,
        segment.comment? comment.line = some comment ∧
        (code.toList.drop span.start).take (span.stop - span.start) = segment.source)
      comments (grammar.commentSpans code.toList) := by
  obtain ⟨segments, hsegments, rfl⟩ := scan_eq_ok_iff.mp h
  rw [commentSpans, hsegments.segments_eq]
  have htext : code.toList = [] ++ (Segment.sources segments ++ []) := hsegments.text_eq
  exact Segment.forall₂_commentSpansFrom htext 1

theorem mapIdx_inComment {grammar : Grammar} {text : List Char} {segments : List Segment}
    (h : grammar.IsSegmentation text segments) (inside outside : Char → Char) :
    text.mapIdx (fun place c => if grammar.inComment text place then inside c else outside c) =
      segments.flatMap fun segment =>
        segment.source.map (if segment.isComment then inside else outside) := by
  have htext : text = Segment.sources segments := h.text_eq.trans (List.append_nil _)
  rw [← Segment.mapIdx_commentSpansFrom inside outside 0 segments, ← htext]
  simp only [inComment, commentSpans, h.segments_eq, Nat.zero_add]

end Grammar

end Marginalia
