import Marginalia.Scan
import Marginalia.Proofs.LineCount
import Marginalia.Proofs.TokenGrammar

/-! # Scanning accepts the token grammar

Scanning accepts exactly the texts that have a segmentation and reports its
comments, each on the line where it starts. Where there is no segmentation, it
reports the line of the block comment that never closes.
-/

namespace Marginalia

namespace Segment

/-- The comments among consecutive segments that start on the given line. Each
newline in front of a segment puts it one line further down. -/
def commentsFrom (line : Nat) : List Segment → List Comment
  | [] => []
  | segment :: segments =>
      (segment.comment? line).toList ++
        commentsFrom (line + segment.source.count '\n') segments

theorem isSome_comment? (segment : Segment) (line : Nat) :
    (segment.comment? line).isSome = segment.isComment := by
  cases segment <;> rfl

theorem comment?_eq_none {segment : Segment} (h : segment.isComment = false) (line : Nat) :
    segment.comment? line = none := by
  rw [← Option.not_isSome_iff_eq_none, isSome_comment?, h]
  exact Bool.false_ne_true

theorem commentsFrom_append (line : Nat) (first second : List Segment) :
    commentsFrom line (first ++ second) =
      commentsFrom line first ++ commentsFrom (line + (sources first).count '\n') second := by
  induction first generalizing line with
  | nil => rfl
  | cons segment first ih =>
      rw [List.cons_append, commentsFrom, commentsFrom, ih, sources_cons, List.count_append,
        List.append_assoc, Nat.add_assoc]

theorem commentsFrom_map_plain (line : Nat) (text : List Char) :
    commentsFrom line (text.map .plain) = [] := by
  induction text generalizing line with
  | nil => rfl
  | cons c rest ih => exact ih _

end Segment

namespace LineTable

theorem passSegment_eq (table : LineTable) (offset : Nat) (found : Array Comment)
    (segment : Segment) :
    table.passSegment (offset, found) segment =
      (offset + utf8Length segment.source,
        found ++ (segment.comment? (table.lineAt offset)).toList.toArray) := by
  cases segment <;> simp [passSegment, Segment.size, Segment.isComment, Segment.comment?]

/-- Passing over segments keeps two facts: the offset is the length of the text
passed over, and the comments found are those of the segments so far. -/
theorem foldl_passSegment {text front rest : List Char} {segments : List Segment}
    (htext : text = front ++ (Segment.sources segments ++ rest)) (found : Array Comment) :
    segments.foldl (ofText text).passSegment (utf8Length front, found) =
      (utf8Length (front ++ Segment.sources segments),
        found ++ (Segment.commentsFrom (1 + front.count '\n') segments).toArray) := by
  induction segments generalizing front found with
  | nil => simp [Segment.commentsFrom]
  | cons segment segments ih =>
      have hline : (ofText text).lineAt (utf8Length front) = 1 + front.count '\n' := by
        rw [htext, lineAt_utf8Length]
      have hnext : text = front ++ segment.source ++ (Segment.sources segments ++ rest) := by
        rw [htext, Segment.sources_cons, List.append_assoc, List.append_assoc]
      rw [List.foldl_cons, passSegment_eq, hline, ← utf8Length_append, ih hnext,
        Segment.sources_cons, List.append_assoc, Segment.commentsFrom, List.count_append,
        Nat.add_assoc, Array.append_assoc, ← List.append_toArray]

theorem passSegments_ofText {text rest : List Char} {segments : List Segment}
    (htext : text = Segment.sources segments ++ rest) :
    (ofText text).passSegments segments =
      (utf8Length (Segment.sources segments), (Segment.commentsFrom 1 segments).toArray) := by
  have hpass := foldl_passSegment
    (show text = [] ++ (Segment.sources segments ++ rest) from htext) #[]
  rwa [List.nil_append, Array.empty_append] at hpass

end LineTable

namespace Grammar

theorem IsSegmentation.scan_eq {grammar : Grammar} {code : String} {segments : List Segment}
    (h : grammar.IsSegmentation code.toList segments) :
    grammar.scan code = .ok (Segment.commentsFrom 1 segments) := by
  unfold scan
  simp only [h.segments_eq, LineTable.passSegments_ofText h.text_eq, if_true]

theorem Cuts.scan_eq_of_stuck {grammar : Grammar} {code : String} {segments : List Segment}
    {rest : List Char} (h : grammar.Cuts none code.toList segments rest)
    (hstuck : grammar.Stuck rest) :
    grammar.scan code = .error ⟨1 + (Segment.sources segments).count '\n'⟩ := by
  unfold scan
  simp only [h.segments_eq_of_stuck hstuck, LineTable.passSegments_ofText h.text_eq,
    Bool.false_eq_true, if_false]
  rw [h.text_eq, LineTable.lineAt_utf8Length]

/-- A text is scanned exactly if it has a segmentation. -/
theorem scan_eq_ok_iff {grammar : Grammar} {code : String} {comments : List Comment} :
    grammar.scan code = .ok comments ↔
      ∃ segments, grammar.IsSegmentation code.toList segments ∧
        comments = Segment.commentsFrom 1 segments := by
  constructor
  · intro hscan
    obtain ⟨segments, rest, hcuts, rfl | hstuck⟩ := grammar.exists_cuts none code.toList
    · have hok := IsSegmentation.scan_eq hcuts
      exact ⟨segments, hcuts, Except.ok.inj (hscan.symm.trans hok)⟩
    · have herror := hcuts.scan_eq_of_stuck hstuck
      exact absurd (hscan.symm.trans herror) nofun
  · rintro ⟨segments, hsegments, rfl⟩
    exact hsegments.scan_eq

/-- A text fails to be scanned exactly if it can be cut up to a block comment that
never closes, and the failure names the line on which that comment opens. -/
theorem scan_eq_error_iff {grammar : Grammar} {code : String} {failure : UnterminatedComment} :
    grammar.scan code = .error failure ↔
      ∃ segments rest, grammar.Cuts none code.toList segments rest ∧ grammar.Stuck rest ∧
        failure.line = 1 + (Segment.sources segments).count '\n' := by
  constructor
  · intro hscan
    obtain ⟨segments, rest, hcuts, rfl | hstuck⟩ := grammar.exists_cuts none code.toList
    · have hok := IsSegmentation.scan_eq hcuts
      exact absurd (hscan.symm.trans hok) nofun
    · have herror := Except.error.inj (hscan.symm.trans (hcuts.scan_eq_of_stuck hstuck))
      exact ⟨segments, rest, hcuts, hstuck, congrArg UnterminatedComment.line herror⟩
  · rintro ⟨segments, rest, hcuts, hstuck, hline⟩
    rw [hcuts.scan_eq_of_stuck hstuck, ← hline]

/-- Scanning accepts exactly its token grammar. It succeeds if and only if the
text has a segmentation, which is then the only one, and reports the comments
of that segmentation. It fails if and only if the segments break off at a block
comment that never closes, and names the line on which that comment opens. -/
theorem scan_accepts_segmentation (grammar : Grammar) (code : String) :
    (∀ comments, grammar.scan code = .ok comments ↔
      ∃ segments, grammar.IsSegmentation code.toList segments ∧
        comments = Segment.commentsFrom 1 segments) ∧
    (∀ first second, grammar.IsSegmentation code.toList first →
      grammar.IsSegmentation code.toList second → first = second) ∧
    (∀ failure, grammar.scan code = .error failure ↔
      ∃ segments rest, grammar.Cuts none code.toList segments rest ∧ grammar.Stuck rest ∧
        failure.line = 1 + (Segment.sources segments).count '\n') :=
  ⟨fun _ => scan_eq_ok_iff, fun _ _ => IsSegmentation.unique, fun _ => scan_eq_error_iff⟩

end Grammar

end Marginalia
