import Marginalia.Proofs.CarriageReturns
import Marginalia.Proofs.Joining
import Marginalia.Report.Text

/-! # Line endings

Scanning does not depend on how lines end. A text in which every newline has a
carriage return in front of it has the same comments on the same lines: line
comments leave out the carriage return, block comments keep those between their
lines. The text report shows neither.
-/

namespace Marginalia

open Text

/-- The comment as it stands in a text with carriage returns. Only a block comment
says any of them. -/
def Comment.crlf (comment : Comment) : Comment :=
  if comment.multiline then
    { comment with text := String.ofList (Text.crlf comment.text.toList) }
  else comment

/-! ## One segment -/

namespace Segment

/-- The segment with carriage returns inside. -/
def crlf : Segment → Segment
  | .literal rule body closed => .literal rule (Text.crlf body) closed
  | .block rule text => .block rule (Text.crlf text)
  | segment => segment

theorem comment?_crlf (line : Nat) (segment : Segment) :
    segment.crlf.comment? line = (segment.comment? line).map Comment.crlf := by
  cases segment with
  | block rule text => simp [crlf, comment?, Comment.crlf, Comment.block]
  | line rule markers text carriage => rfl
  | verbatim => rfl
  | literal => rfl
  | plain => rfl

/-- The new segments hold the comments of the old ones, on the same lines, with
carriage returns. -/
def SameComments (new old : List Segment) : Prop :=
  ∀ line, commentsFrom line new = (commentsFrom line old).map Comment.crlf

theorem SameComments.cons {segment segment' : Segment} {new old : List Segment}
    (h : SameComments new old)
    (hcomment : ∀ line, segment'.comment? line = (segment.comment? line).map Comment.crlf)
    (hlines : segment'.source.count '\n' = segment.source.count '\n') :
    SameComments (segment' :: new) (segment :: old) := by
  intro line
  rw [commentsFrom, commentsFrom, hcomment, hlines, h, List.map_append]
  cases segment.comment? line <;> rfl

end Segment

namespace Grammar

namespace Inline

theorem noVerbatim {grammar : Grammar} (h : grammar.Inline) {text : List Char}
    (hold : grammar.NoVerbatim text) : grammar.NoVerbatim (crlf text) := by
  intro token htoken hstands
  have hinline := h.token token (mem_tokens_of_verbatim htoken)
  exact hold token htoken (hinline.isPrefix_crlf_iff.mp hstands)

theorem noLiteral {grammar : Grammar} (h : grammar.Inline) {text : List Char}
    (hold : grammar.NoLiteral text) : grammar.NoLiteral (crlf text) := by
  intro rule hrule
  cases text with
  | nil => exact nofun
  | cons c rest =>
      by_cases hc : c = '\n'
      · subst hc
        intro hhead
        exact (h.literal rule hrule).delimiter.1 (Option.some.inj hhead).symm
      · rw [crlf_cons hc]
        exact hold rule hrule

theorem noBlock {grammar : Grammar} (h : grammar.Inline) {text : List Char}
    (hold : grammar.NoBlock text) : grammar.NoBlock (crlf text) := by
  intro rule hrule hstands
  have hinline := h.token rule.opening (opening_mem_tokens hrule)
  exact hold rule hrule (hinline.isPrefix_crlf_iff.mp hstands)

theorem noLine {grammar : Grammar} (h : grammar.Inline) {before : Option Char} {text : List Char}
    (hold : grammar.NoLine before text) : grammar.NoLine before (crlf text) := by
  intro rule hrule hcounts hstands
  have hinline := h.token rule.marker (marker_mem_tokens hrule)
  exact hold rule hrule hcounts (hinline.isPrefix_crlf_iff.mp hstands)

theorem return_not_mem_triggers {grammar : Grammar} (h : grammar.Inline) :
    '\r' ∉ grammar.triggers :=
  not_mem_triggers (fun token hmem => (h.token token hmem).carriage)
    (fun rule hrule => (h.literal rule hrule).delimiter.1)

theorem newline_not_mem_markers {grammar : Grammar} (h : grammar.Inline) {rule : LineRule}
    (hrule : grammar.line = some rule) (markers : Nat) :
    '\n' ∉ (List.replicate markers rule.marker.chars).flatten :=
  LineRule.newline_not_mem_markers (h.token rule.marker (marker_mem_tokens hrule)).newline markers

end Inline

/-- A line comment takes the carriage return in front of the newline that ends
it. -/
theorem Reads.line_crlf {grammar : Grammar} (hinline : grammar.Inline) {before : Option Char}
    {rule : LineRule} {markers : Nat} {text after : List Char}
    (h : grammar.Reads before (.line rule markers text false) ('\n' :: after)) :
    crlf ((Segment.line rule markers text false).source ++ '\n' :: after) =
        (Segment.line rule markers text true).source ++ '\n' :: crlf after ∧
      grammar.Reads before (.line rule markers text true) ('\n' :: crlf after) := by
  cases h with
  | line hverbatim hliteral hblock hlisted hcounts hspans =>
      have hmarkers := hinline.newline_not_mem_markers hlisted markers
      have hsource : crlf ((Segment.line rule markers text false).source ++ '\n' :: after) =
          (Segment.line rule markers text true).source ++ '\n' :: crlf after := by
        simp [Segment.source, crlf_append, crlf_of_not_mem hmarkers,
          crlf_of_not_mem hspans.oneLine]
      have hbody : crlf (text ++ LineRule.ending false ++ '\n' :: after) =
          text ++ LineRule.ending true ++ '\n' :: crlf after := by
        simp [LineRule.ending, crlf_append, crlf_of_not_mem hspans.oneLine]
      refine ⟨hsource, .line ?_ ?_ ?_ hlisted hcounts ?_⟩
      · exact hsource ▸ hinline.noVerbatim hverbatim
      · exact hsource ▸ hinline.noLiteral hliteral
      · exact hsource ▸ hinline.noBlock hblock
      · have hmarker := hinline.token rule.marker (marker_mem_tokens hlisted)
        refine ⟨hspans.marked, hspans.single, ?_, hspans.oneLine,
          fun c rest hafter => (List.cons.inj hafter).1.symm,
          fun htrue => absurd htrue Bool.noConfusion⟩
        intro hrepeat
        rw [← hbody, hmarker.isPrefix_crlf_iff]
        exact hspans.whole hrepeat

/-- A segment that is not the end of a line and no line comment in front of one is
read with the carriage returns inside it. -/
theorem Reads.crlf_cases {grammar : Grammar} (hinline : grammar.Inline) {before : Option Char}
    {segment : Segment} {after : List Char} (h : grammar.Reads before segment after) :
    segment = .plain '\n' ∨
      (∃ rule markers text carriage more, segment = .line rule markers text carriage ∧
        after = '\n' :: more) ∨
      segment.crlf.source = crlf segment.source ∧
        grammar.Reads before segment.crlf (crlf after) := by
  cases h with
  | @verbatim earlier later token _ hlisted hfirst =>
      have hmem {other : Token} (hother : other ∈ grammar.verbatim) : other.Inline :=
        hinline.token other (mem_tokens_of_verbatim hother)
      have htoken := hmem (hlisted ▸ List.mem_append_right _ List.mem_cons_self)
      refine .inr (.inr ⟨htoken.crlf_chars.symm, .verbatim hlisted ?_⟩)
      intro other hother
      rw [← htoken.crlf_chars_append,
        (hmem (hlisted ▸ List.mem_append_left _ hother)).isPrefix_crlf_iff]
      exact hfirst other hother
  | @literal _ _ rule body _ hverbatim hlisted hfirst hbody =>
      have hrule := hinline.literal rule (hlisted ▸ List.mem_append_right _ List.mem_cons_self)
      have hquoted (rest : List Char) : crlf (rule.delimiter :: (body ++ rule.delimiter :: rest)) =
          rule.delimiter :: (crlf body ++ rule.delimiter :: crlf rest) := by
        rw [crlf_cons hrule.delimiter.2, crlf_append, crlf_cons hrule.delimiter.2]
      refine .inr (.inr ⟨(hquoted []).symm, .literal ?_ hlisted hfirst (hbody.crlf hrule)⟩)
      exact hquoted _ ▸ hinline.noVerbatim hverbatim
  | @openLiteral _ _ rule body hverbatim hlisted hfirst hdangles =>
      have hrule := hinline.literal rule (hlisted ▸ List.mem_append_right _ List.mem_cons_self)
      have hopened : crlf (rule.delimiter :: body) = rule.delimiter :: crlf body :=
        crlf_cons hrule.delimiter.2 body
      refine .inr (.inr ⟨?_, .openLiteral ?_ hlisted hfirst (hdangles.crlf hrule)⟩)
      · rw [Segment.crlf, Segment.source_openLiteral, Segment.source_openLiteral, hopened]
      · exact hopened ▸ hinline.noVerbatim hverbatim
  | @block rule body _ hverbatim hliteral hlisted hcloses =>
      have hopen := hinline.token rule.opening (opening_mem_tokens hlisted)
      have hclose := hinline.token rule.closing (closing_mem_tokens hlisted)
      have hsource : (Segment.block rule (crlf body)).source =
          crlf (Segment.block rule body).source := by
        rw [Segment.source, Segment.source, crlf_append, crlf_append, hopen.crlf_chars,
          hclose.crlf_chars]
      refine .inr (.inr ⟨hsource, .block ?_ ?_ hlisted (hcloses.crlf hopen hclose)⟩)
      · rw [hsource, ← crlf_append]
        exact hinline.noVerbatim hverbatim
      · rw [hsource, ← crlf_append]
        exact hinline.noLiteral hliteral
  | @line rule markers text carriage after hverbatim hliteral hblock hlisted hcounts hspans =>
      cases after with
      | cons c more =>
          obtain rfl := hspans.stops c more rfl
          exact .inr (.inl ⟨rule, markers, text, carriage, more, rfl, rfl⟩)
      | nil =>
          -- a comment on the last line has no line ending to change
          have hnewline : '\n' ∉ (Segment.line rule markers text carriage).source := by
            rw [Segment.source, List.mem_append, List.mem_append, not_or, not_or]
            refine ⟨⟨hinline.newline_not_mem_markers hlisted markers, hspans.oneLine⟩, ?_⟩
            cases carriage <;> decide
          exact .inr (.inr ⟨(crlf_of_not_mem hnewline).symm,
            .line hverbatim hliteral hblock hlisted hcounts hspans⟩)
  | @plain c after hverbatim hliteral hblock hline =>
      by_cases hc : c = '\n'
      · exact .inl (hc ▸ rfl)
      · have hverbatim := hinline.noVerbatim hverbatim
        have hliteral := hinline.noLiteral hliteral
        have hblock := hinline.noBlock hblock
        have hline := hinline.noLine hline
        rw [crlf_cons hc] at hverbatim hliteral hblock hline
        exact .inr (.inr ⟨(crlf_cons hc []).symm, .plain hverbatim hliteral hblock hline⟩)

theorem Stuck.crlf {grammar : Grammar} (hinline : grammar.Inline) {text : List Char}
    (h : grammar.Stuck text) : grammar.Stuck (crlf text) := by
  obtain ⟨rule, body, hlisted, rfl, hdangles⟩ := h.opens
  have hopen := hinline.token rule.opening (opening_mem_tokens hlisted)
  have hclose := hinline.token rule.closing (closing_mem_tokens hlisted)
  exact ⟨hinline.noVerbatim h.noVerbatim, hinline.noLiteral h.noLiteral, rule, Text.crlf body,
    hlisted, hopen.crlf_chars_append body, hdangles.crlf hopen hclose⟩

theorem Stuck.head?_ne_newline {grammar : Grammar} (hinline : grammar.Inline) {text : List Char}
    (h : grammar.Stuck text) : text.head? ≠ some '\n' := by
  obtain ⟨rule, body, hlisted, rfl, -⟩ := h.opens
  intro hhead
  refine (hinline.token rule.opening (opening_mem_tokens hlisted)).newline ?_
  rw [← Option.some.inj hhead]
  exact List.mem_cons_self

/-! ## Whole texts -/

/-- The segments of a text give those of the text with carriage returns. Where a
line comment has taken the carriage return in front of the next newline, that
newline is what is left to read, and the look-behind no longer matters. -/
theorem Cuts.crlf {grammar : Grammar} (hinline : grammar.Inline) (hsolid : grammar.Solid)
    {before : Option Char} {text rest : List Char} {segments : List Segment}
    (h : grammar.Cuts before text segments rest) (hreturn : '\r' ∉ text)
    (hrest : rest.head? ≠ some '\n') (taken : Bool) {new : List Char}
    (hnew : crlf text = LineRule.ending taken ++ new) {before' : Option Char}
    (hbefore : taken = false → before' = before) :
    ∃ segments', grammar.Cuts before' new segments' (crlf rest) ∧
      Segment.SameComments segments' segments := by
  have hplainNewline (before : Option Char) (after : List Char) :
      grammar.Reads before (.plain '\n') after :=
    .of_not_mem_triggers (hsolid.blank_not_mem_triggers '\n') before after
  induction h generalizing taken new before' with
  | @nil before rest =>
      cases taken with
      | false => exact ⟨[], (hnew : Text.crlf rest = new) ▸ .nil, fun _ => rfl⟩
      | true =>
          -- a carriage return is taken from a newline only, and the rest starts with none
          obtain ⟨more, rfl, -⟩ := exists_newline_of_crlf_eq hnew hreturn
          exact absurd rfl hrest
  | @cons before segment after segments rest hreads htail ih =>
      have hafter : '\r' ∉ after := fun hmem => hreturn (List.mem_append_right _ hmem)
      cases taken with
      | true =>
          obtain ⟨more, htext, rfl⟩ := exists_newline_of_crlf_eq hnew hreturn
          obtain ⟨rfl, rfl⟩ := hsolid.eq_plain_newline hreads htext.symm
          obtain ⟨segments', hcuts, hsame⟩ := ih hafter hrest false rfl fun _ => rfl
          exact ⟨.plain '\n' :: segments', .cons (hplainNewline _ _) hcuts,
            hsame.cons (fun _ => rfl) rfl⟩
      | false =>
          obtain rfl := hbefore rfl
          obtain rfl : Text.crlf (segment.source ++ after) = new := hnew
          rcases hreads.crlf_cases hinline with
            rfl | ⟨rule, markers, text, carriage, more, rfl, rfl⟩ | ⟨hsource, hreads'⟩
          · -- a newline that no comment ends at becomes two segments
            obtain ⟨segments', hcuts, hsame⟩ := ih hafter hrest false rfl fun _ => rfl
            refine ⟨.plain '\r' :: .plain '\n' :: segments',
              .cons (.of_not_mem_triggers hinline.return_not_mem_triggers _ _)
                (.cons (hplainNewline _ _) hcuts), ?_⟩
            exact hsame.cons (fun _ => rfl) rfl
          · -- a line comment takes the carriage return along
            have hcarriage : carriage = false := by
              cases carriage with
              | false => rfl
              | true => exact absurd (by simp [Segment.source]) hreturn
            subst hcarriage
            obtain ⟨hsource, hreads'⟩ := hreads.line_crlf hinline
            obtain ⟨segments', hcuts, hsame⟩ :=
              ih hafter hrest true rfl fun htrue => absurd htrue Bool.noConfusion
            rw [hsource]
            refine ⟨.line rule markers text true :: segments', .cons hreads' hcuts, ?_⟩
            exact hsame.cons (fun _ => rfl) (by simp [Segment.source])
          · obtain ⟨segments', hcuts, hsame⟩ := ih hafter hrest false rfl fun _ => rfl
            rw [crlf_append, ← hsource]
            refine ⟨segment.crlf :: segments', .cons hreads' ?_, ?_⟩
            · rw [hsource, getLast?_crlf]
              exact hcuts
            · refine hsame.cons (fun line => segment.comment?_crlf line) ?_
              rw [hsource, count_newline_crlf]

end Grammar

/-! ## The text report -/

namespace Text

theorem pieces_newline (rest : List Char) : pieces ('\n' :: rest) = ['\n'] :: pieces rest := rfl

theorem pieces_cons {c : Char} (h : c ≠ '\n') (rest : List Char) :
    pieces (c :: rest) =
      match pieces rest with
      | [] => [[c]]
      | piece :: more => (c :: piece) :: more := by
  rw [pieces, List.foldr_cons, if_neg h]
  rfl

theorem pieces_crlf (text : List Char) : pieces (crlf text) = (pieces text).map crlf := by
  induction text with
  | nil => rfl
  | cons c rest ih =>
      by_cases hc : c = '\n'
      · subst hc
        rw [crlf_newline, pieces_cons (by decide), pieces_newline, pieces_newline, ih,
          List.map_cons, crlf_newline, crlf_nil]
      · rw [crlf_cons hc, pieces_cons hc, pieces_cons hc, ih]
        cases pieces rest with
        | nil =>
            rw [List.map_cons, crlf_cons hc]
            rfl
        | cons piece more => rw [List.map_cons, List.map_cons, crlf_cons hc]

/-- A piece of a text has a newline at its end only. -/
theorem exists_line_of_mem_pieces {text piece : List Char} (h : piece ∈ pieces text) :
    ∃ line, '\n' ∉ line ∧ (piece = line ∨ piece = line ++ ['\n']) := by
  induction text generalizing piece with
  | nil => exact absurd h List.not_mem_nil
  | cons c rest ih =>
      by_cases hc : c = '\n'
      · subst hc
        rcases List.mem_cons.mp h with rfl | hlater
        · exact ⟨[], List.not_mem_nil, .inr rfl⟩
        · exact ih hlater
      · rw [pieces_cons hc] at h
        cases hpieces : pieces rest with
        | nil =>
            rw [hpieces] at h
            obtain rfl := List.mem_singleton.mp h
            exact ⟨[c], fun hmem => hc (List.mem_singleton.mp hmem).symm, .inl rfl⟩
        | cons first more =>
            rw [hpieces] at h ih
            rcases List.mem_cons.mp h with rfl | hlater
            · obtain ⟨line, hline, hfirst⟩ := ih List.mem_cons_self
              refine ⟨c :: line, List.not_mem_cons_of_ne_of_not_mem (Ne.symm hc) hline, ?_⟩
              exact hfirst.imp (congrArg (c :: ·)) (congrArg (c :: ·))
            · exact ih (List.mem_cons_of_mem _ hlater)

theorem trimEnd_concat {c : Char} (h : isWhite c = true) (text : List Char) :
    trimEnd (text ++ [c]) = trimEnd text := by
  rw [trimEnd, trimEnd, List.reverse_concat, List.dropWhile_cons_of_pos h]

/-- A line ending is white, so a line is trimmed to the same with it. -/
theorem trimEnd_dropLineEnd (piece : List Char) : trimEnd (dropLineEnd piece) = trimEnd piece := by
  unfold dropLineEnd
  split
  next rest hreverse =>
    have hpiece : piece = rest.reverse ++ ['\r'] ++ ['\n'] := by
      rw [List.reverse_eq_iff.mp hreverse, List.reverse_cons, List.reverse_cons]
    rw [hpiece, trimEnd_concat rfl, trimEnd_concat rfl]
  next rest _ hreverse =>
    have hpiece : piece = rest.reverse ++ ['\n'] := by
      rw [List.reverse_eq_iff.mp hreverse, List.reverse_cons]
    rw [hpiece, trimEnd_concat rfl]
  next => rfl

theorem trimEnd_crlf_of_mem_pieces {text piece : List Char} (h : piece ∈ pieces text) :
    trimEnd (crlf piece) = trimEnd piece := by
  obtain ⟨line, hline, rfl | rfl⟩ := exists_line_of_mem_pieces h
  · rw [crlf_of_not_mem hline]
  · have hcrlf : crlf (line ++ ['\n']) = line ++ ['\r'] ++ ['\n'] := by
      rw [crlf_append, crlf_of_not_mem hline, crlf_newline, crlf_nil, List.append_assoc]
      rfl
    rw [hcrlf, trimEnd_concat rfl, trimEnd_concat rfl, trimEnd_concat rfl]

end Text

theorem Comment.endLine_crlf (comment : Comment) : comment.crlf.endLine = comment.endLine := by
  unfold Comment.crlf
  split
  · simp only [endLine, String.toList_ofList, count_newline_crlf]
  · rfl

namespace Report

theorem body_crlf (comment : Comment) : body comment.crlf = body comment := by
  unfold Comment.crlf
  split
  next =>
    by_cases hnewline : '\n' ∈ comment.text.toList
    · have hmem : '\n' ∈ crlf comment.text.toList := by
        rwa [← List.count_pos_iff, count_newline_crlf, List.count_pos_iff]
      -- the lines differ in the white space that each of them is trimmed of
      have hlines : (Text.lines (crlf comment.text.toList)).map bodyLine =
          (Text.lines comment.text.toList).map bodyLine := by
        rw [Text.lines, Text.lines, pieces_crlf, List.map_map, List.map_map, List.map_map]
        apply List.map_congr_left
        intro piece hpiece
        simp only [Function.comp_apply, bodyLine, trimEnd_dropLineEnd,
          trimEnd_crlf_of_mem_pieces hpiece]
      simp only [body, String.toList_ofList, List.contains_iff_mem, hmem, hnewline, hlines,
        if_true]
    · simp only [body, String.toList_ofList, crlf_of_not_mem hnewline]
  next => rfl

theorem commentRecord_crlf (path : String) (comment : Comment) :
    commentRecord path comment.crlf = commentRecord path comment := by
  have hline : comment.crlf.line = comment.line := by
    unfold Comment.crlf
    split <;> rfl
  simp only [commentRecord, location, lineRange, Comment.endLine_crlf, hline, body_crlf]

/-- The report of a file does not show how its lines end. -/
theorem fileRecords_crlf (path : Path) (language : Language) (comments : List Comment) :
    fileRecords ⟨path, language, comments.map Comment.crlf⟩ =
      fileRecords ⟨path, language, comments⟩ := by
  simp only [fileRecords, List.flatMap_map, commentRecord_crlf]

end Report

namespace Language

theorem inline (language : Language) : language.grammar.Inline := by
  cases language <;> exact ⟨by decide, by decide⟩

/-- Scanning does not depend on how lines end. With a carriage return in front of
every newline, a text that has none fails on the same line, or has the same
comments on the same lines, in which only the block comments hold the carriage
returns. The text report of the comments is the same, in colours or without. -/
theorem scan_crlf (language : Language) {code : String} (hreturn : '\r' ∉ code.toList) :
    (∀ failure, language.grammar.scan code = .error failure →
      language.grammar.scan (String.ofList (crlf code.toList)) = .error failure) ∧
    ∀ comments, language.grammar.scan code = .ok comments →
      language.grammar.scan (String.ofList (crlf code.toList)) =
          .ok (comments.map Comment.crlf) ∧
        ∀ path colours,
          Report.render colours
              (Report.fileRecords ⟨path, language, comments.map Comment.crlf⟩) =
            Report.render colours (Report.fileRecords ⟨path, language, comments⟩) := by
  have htext : crlf code.toList = LineRule.ending false ++
      (String.ofList (crlf code.toList)).toList := by
    rw [String.toList_ofList]
    rfl
  constructor
  · intro failure herror
    obtain ⟨segments, rest, hcuts, hstuck, hline⟩ := Grammar.scan_eq_error_iff.mp herror
    obtain ⟨segments', hcuts', -⟩ := hcuts.crlf language.inline language.solid hreturn
      (hstuck.head?_ne_newline language.inline) false htext fun _ => rfl
    have hsources : Segment.sources segments' = crlf (Segment.sources segments) := by
      have hnew := hcuts'.text_eq
      rw [String.toList_ofList, hcuts.text_eq, crlf_append] at hnew
      exact (List.append_cancel_right hnew).symm
    rw [hcuts'.scan_eq_of_stuck (hstuck.crlf language.inline), hsources, count_newline_crlf,
      ← hline]
  · intro comments hok
    obtain ⟨segments, hcuts, rfl⟩ := Grammar.scan_eq_ok_iff.mp hok
    obtain ⟨segments', hcuts', hsame⟩ := hcuts.crlf language.inline language.solid hreturn
      nofun false htext fun _ => rfl
    refine ⟨?_, fun path colours => by rw [Report.fileRecords_crlf]⟩
    rw [Grammar.IsSegmentation.scan_eq hcuts', hsame 1]

/-- A newline after an escape, a nested comment across lines, and a marker at the
very end. -/
theorem scan_crlf_haskell :
    haskell.grammar.scan "\"\\\n\"\x7b-a\n\x7b-\n-\x7d-\x7d--é\n--" =
        .ok [.block "a\n\x7b-\n-\x7d" 2, .single "é" 4, .single "" 5] ∧
      haskell.grammar.scan "\"\\\r\n\"\x7b-a\r\n\x7b-\r\n-\x7d-\x7d--é\r\n--" =
        .ok [.block "a\r\n\x7b-\r\n-\x7d" 2, .single "é" 4, .single "" 5] := by
  have hscan : haskell.grammar.scan "\"\\\n\"\x7b-a\n\x7b-\n-\x7d-\x7d--é\n--" =
      .ok [.block "a\n\x7b-\n-\x7d" 2, .single "é" 4, .single "" 5] := by
    decide +kernel
  exact ⟨hscan, ((scan_crlf haskell (by decide)).2 _ hscan).1⟩

end Language

end Marginalia
