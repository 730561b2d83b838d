import Mathlib.Data.List.Forall2
import Marginalia.Language
import Marginalia.Proofs.CommentSpans
import Marginalia.Proofs.Context

/-! # Blanking a program text

A character is blanked by writing a space in its place, unless it is a newline.
Blanking the comments of a text leaves no comment, and blanking everything else
leaves every comment as it is. Both rest on one fact: no token of a language
holds a blank, so blanking never makes a token stand where none stood.
-/

namespace Marginalia

/-- What a blanked character becomes. -/
def blank (c : Char) : Char :=
  if c = '\n' then '\n' else ' '

theorem blank_eq_or (c : Char) : blank c = ' ' ∨ blank c = '\n' := by
  unfold blank
  split
  · exact .inr rfl
  · exact .inl rfl

theorem count_newline_map_blank (text : List Char) :
    (text.map blank).count '\n' = text.count '\n' := by
  induction text with
  | nil => rfl
  | cons c rest ih =>
      rw [List.map_cons, List.count_cons, List.count_cons, ih]
      by_cases hc : c = '\n'
      · simp [blank, hc]
      · simp [blank, hc]

/-- The new text is the old one with some characters blanked. -/
def Faded (new old : List Char) : Prop :=
  List.Forall₂ (fun n o => n = o ∨ n = blank o) new old

namespace Faded

theorem refl (text : List Char) : Faded text text :=
  List.forall₂_same.mpr fun _ _ => .inl rfl

theorem map_blank (text : List Char) : Faded (text.map blank) text := by
  unfold Faded
  rw [List.forall₂_map_left_iff]
  exact List.forall₂_same.mpr fun _ _ => .inr rfl

theorem append {new new' old old' : List Char} (h : Faded new old) (h' : Faded new' old') :
    Faded (new ++ new') (old ++ old') :=
  List.rel_append h h'

/-- A text in which nothing is blank stands in the old text where it stands in
the new one. -/
theorem isPrefix_of_faded {chars new old : List Char} (h : Faded new old)
    (hspace : ' ' ∉ chars) (hnewline : '\n' ∉ chars) (hstands : chars <+: new) :
    chars <+: old := by
  induction h generalizing chars with
  | nil => exact hstands
  | @cons n o new old hhead _ ih =>
      cases chars with
      | nil => exact List.nil_prefix
      | cons c chars =>
          obtain ⟨rfl, htail⟩ := List.cons_prefix_cons.mp hstands
          rw [List.mem_cons, not_or] at hspace hnewline
          have hkept : c = o := by
            rcases hhead with hsame | hblank
            · exact hsame
            · rcases blank_eq_or o with h | h
              · exact absurd (hblank.trans h).symm hspace.1
              · exact absurd (hblank.trans h).symm hnewline.1
          subst hkept
          exact List.cons_prefix_cons.mpr ⟨rfl, ih hspace.2 hnewline.2 htail⟩

/-- Blanking keeps the end of a line where it is. -/
theorem stops {new old : List Char} (h : Faded new old)
    (hold : ∀ c rest, old = c :: rest → c = '\n') : ∀ c rest, new = c :: rest → c = '\n' := by
  rintro c rest rfl
  cases h with
  | @cons _ o _ old hhead _ =>
      obtain rfl := hold o old rfl
      exact hhead.elim id id

end Faded

namespace Grammar

/-- No token and no delimiter of the grammar holds a space or a newline. -/
structure Solid (grammar : Grammar) : Prop where
  token : ∀ token ∈ grammar.tokens, ' ' ∉ token.chars ∧ '\n' ∉ token.chars
  delimiter : ∀ rule ∈ grammar.literals, rule.delimiter ≠ ' ' ∧ rule.delimiter ≠ '\n'

namespace Solid

theorem narrows {grammar : Grammar} (h : grammar.Solid) {new old : List Char}
    (hfaded : Faded new old) : grammar.Narrows new old := by
  intro token htoken front hstands
  obtain ⟨hspace, hnewline⟩ := h.token token htoken
  exact ((Faded.refl front).append hfaded).isPrefix_of_faded hspace hnewline hstands

theorem blank_not_mem_triggers {grammar : Grammar} (h : grammar.Solid) (c : Char) :
    blank c ∉ grammar.triggers := by
  rcases blank_eq_or c with hc | hc
  · rw [hc]
    exact not_mem_triggers (fun token hmem => (h.token token hmem).1)
      (fun rule hrule => (h.delimiter rule hrule).1)
  · rw [hc]
    exact not_mem_triggers (fun token hmem => (h.token token hmem).2)
      (fun rule hrule => (h.delimiter rule hrule).2)

theorem cuts_blanks {grammar : Grammar} (h : grammar.Solid) (before : Option Char)
    (text after : List Char) :
    grammar.Cuts before (text.map blank ++ after) ((text.map blank).map .plain) after := by
  apply Cuts.of_not_mem_triggers
  intro c hc
  obtain ⟨d, -, rfl⟩ := List.mem_map.mp hc
  exact h.blank_not_mem_triggers d

end Solid

end Grammar

namespace Segment

/-- Cuts the chosen segments into single characters, blanked. -/
def fade (chosen : Segment → Bool) (segments : List Segment) : List Segment :=
  segments.flatMap fun segment =>
    if chosen segment then (segment.source.map blank).map .plain else [segment]

theorem fade_cons_of_chosen {chosen : Segment → Bool} {segment : Segment}
    (h : chosen segment = true) (segments : List Segment) :
    fade chosen (segment :: segments) =
      (segment.source.map blank).map .plain ++ fade chosen segments := by
  rw [fade, List.flatMap_cons, if_pos h, ← fade]

theorem fade_cons_of_not_chosen {chosen : Segment → Bool} {segment : Segment}
    (h : chosen segment = false) (segments : List Segment) :
    fade chosen (segment :: segments) = segment :: fade chosen segments := by
  rw [fade, List.flatMap_cons, if_neg (by rw [h]; exact Bool.false_ne_true), ← fade,
    List.singleton_append]

theorem faded_sources_fade (chosen : Segment → Bool) (segments : List Segment) :
    Faded (sources (fade chosen segments)) (sources segments) := by
  induction segments with
  | nil => exact .nil
  | cons segment segments ih =>
      rw [sources_cons]
      cases hchosen : chosen segment with
      | true =>
          rw [fade_cons_of_chosen hchosen, sources_append, sources_map_plain]
          exact (Faded.map_blank _).append ih
      | false =>
          rw [fade_cons_of_not_chosen hchosen, sources_cons]
          exact (Faded.refl _).append ih

theorem sources_fade (chosen : Segment → Bool) (segments : List Segment) :
    sources (fade chosen segments) =
      segments.flatMap fun segment =>
        segment.source.map (if chosen segment then blank else id) := by
  induction segments with
  | nil => rfl
  | cons segment segments ih =>
      rw [List.flatMap_cons, ← ih]
      cases hchosen : chosen segment with
      | true =>
          rw [fade_cons_of_chosen hchosen, sources_append, sources_map_plain, if_pos rfl]
      | false =>
          rw [fade_cons_of_not_chosen hchosen, sources_cons, if_neg Bool.noConfusion, List.map_id]

theorem commentsFrom_fade_comments (line : Nat) (segments : List Segment) :
    commentsFrom line (fade isComment segments) = [] := by
  induction segments generalizing line with
  | nil => rfl
  | cons segment segments ih =>
      cases hcomment : segment.isComment with
      | true =>
          rw [fade_cons_of_chosen hcomment, commentsFrom_append, commentsFrom_map_plain, ih,
            List.append_nil]
      | false =>
          rw [fade_cons_of_not_chosen hcomment, commentsFrom, comment?_eq_none hcomment, ih,
            Option.toList_none, List.append_nil]

/-- Blanking keeps the newlines, so the comments that stay are on the same lines. -/
theorem commentsFrom_fade_rest (line : Nat) (segments : List Segment) :
    commentsFrom line (fade (fun segment => !segment.isComment) segments) =
      commentsFrom line segments := by
  induction segments generalizing line with
  | nil => rfl
  | cons segment segments ih =>
      cases hcomment : segment.isComment with
      | true =>
          rw [fade_cons_of_not_chosen (by rw [hcomment, Bool.not_true]), commentsFrom, commentsFrom,
            ih]
      | false =>
          rw [fade_cons_of_chosen (by rw [hcomment, Bool.not_false]), commentsFrom_append,
            commentsFrom_map_plain, ih, sources_map_plain, count_newline_map_blank, commentsFrom,
            comment?_eq_none hcomment, Option.toList_none]

end Segment

namespace Grammar

/-- The look-behind of two runs, one of which has the chosen segments blanked,
stays related: as far as the relation holds, kept segments are read in the
blanked text too, and it holds again after every segment. -/
structure CarriesOver (grammar : Grammar) (chosen : Segment → Bool)
    (related : Option Char → Option Char → List Char → Prop) : Prop where
  kept : ∀ {before before' segment old new}, grammar.Reads before segment old →
    chosen segment = false → related before before' (segment.source ++ old) → Faded new old →
      grammar.Reads before' segment new
  same : ∀ before text, related before before text
  blanked : ∀ {before segment old}, grammar.Reads before segment old → chosen segment = true →
    ∀ c, related segment.source.getLast? (some (blank c)) old

/-- The segments of a text, with the chosen ones blanked, are the segments of the
blanked text. -/
theorem CarriesOver.cuts_fade {grammar : Grammar} {chosen : Segment → Bool}
    {related : Option Char → Option Char → List Char → Prop}
    (h : grammar.CarriesOver chosen related) (hsolid : grammar.Solid)
    {before before' : Option Char} {text : List Char} {segments : List Segment}
    (hcuts : grammar.Cuts before text segments []) (hrelated : related before before' text) :
    grammar.Cuts before' (Segment.sources (Segment.fade chosen segments))
      (Segment.fade chosen segments) [] := by
  generalize hend : ([] : List Char) = rest at hcuts ⊢
  induction hcuts generalizing before' with
  | nil =>
      subst hend
      exact .nil
  | @cons before segment after segments rest hreads htail ih =>
      have hfaded : Faded (Segment.sources (Segment.fade chosen segments)) after := by
        rw [htail.text_eq, ← hend, List.append_nil]
        exact Segment.faded_sources_fade chosen segments
      cases hchosen : chosen segment with
      | false =>
          rw [Segment.fade_cons_of_not_chosen hchosen, Segment.sources_cons]
          exact .cons (h.kept hreads hchosen hrelated hfaded) (ih (h.same _ _) hend)
      | true =>
          rw [Segment.fade_cons_of_chosen hchosen, Segment.sources_append,
            Segment.sources_map_plain]
          -- the blanks are segments of their own, and the last one is the look-behind
          refine (hsolid.cuts_blanks before' segment.source _).append ?_
          obtain ⟨c, tail, hsource⟩ := hreads.exists_source_eq_cons
          rw [Segment.sources_map_plain, List.getLast?_map, hsource, List.getLast?_cons]
          exact ih (hsource ▸ h.blanked hreads hchosen _) hend

/-- A segment that keeps its characters is read in a blanked text. -/
theorem Reads.of_faded {grammar : Grammar} (hsolid : grammar.Solid)
    {before before' : Option Char} {segment : Segment} {new old : List Char}
    (h : grammar.Reads before segment old) (hfaded : Faded new old)
    (hcounts : segment.isComment = true → ∀ rule, grammar.line = some rule →
      rule.CountsAfter before → rule.CountsAfter before')
    (hline : segment.isComment = false → grammar.NoLine before (segment.source ++ old) →
      grammar.NoLine before' (segment.source ++ old)) :
    grammar.Reads before' segment new := by
  refine h.narrow (hsolid.narrows hfaded) hfaded.stops ?_ hcounts hline
  -- an open literal runs to the end of the text, and blanking keeps the length
  rintro rule body rfl
  cases h with
  | openLiteral => exact List.forall₂_nil_right_iff.mp hfaded

theorem Solid.noLine_of_stops {grammar : Grammar} (h : grammar.Solid) (before : Option Char)
    {text : List Char} (hstops : ∀ c rest, text = c :: rest → c = '\n') :
    grammar.NoLine before text := by
  intro rule hrule _
  cases text with
  | nil => exact rule.marker.not_prefix_nil
  | cons c rest =>
      obtain rfl := hstops c rest rfl
      exact Token.not_prefix_of_not_mem (h.token rule.marker (marker_mem_tokens hrule)).2 rest

theorem countsAfter_blank (rule : LineRule) (c : Char) : rule.CountsAfter (some (blank c)) := by
  intro _ d hd
  obtain rfl := Option.some.inj hd
  rcases blank_eq_or c with hc | hc
  · rw [hc]
    exact .inl rfl
  · rw [hc]
    exact .inl rfl

/-- With the comments blanked, no marker comes to count that did not count
before: a line comment is followed by the end of its line, and where there are
block comments, markers count everywhere. -/
theorem carriesOver_comments {grammar : Grammar} (hsolid : grammar.Solid)
    (hword : ∀ line block, grammar.line = some line → grammar.block = some block →
      line.wordStart = false) :
    grammar.CarriesOver Segment.isComment
      (fun before before' text => grammar.NoLine before text → grammar.NoLine before' text) where
  kept hreads hkept hrelated hfaded := by
    refine hreads.of_faded hsolid hfaded ?_ fun _ => hrelated
    intro hcomment
    exact absurd (hcomment.symm.trans hkept) Bool.noConfusion
  same _ _ := id
  blanked hreads hcomment c := by
    cases hreads with
    | block _ _ hlisted _ =>
        intro hnone rule hrule _
        refine hnone rule hrule ?_
        intro hstart
        exact absurd (hstart.symm.trans (hword rule _ hrule hlisted)) Bool.noConfusion
    | line _ _ _ _ _ hspans => exact fun _ => hsolid.noLine_of_stops _ hspans.stops
    | verbatim => exact absurd hcomment nofun
    | literal => exact absurd hcomment nofun
    | openLiteral => exact absurd hcomment nofun
    | plain => exact absurd hcomment nofun

/-- With everything but the comments blanked, every marker that counted still
counts. -/
theorem carriesOver_rest {grammar : Grammar} (hsolid : grammar.Solid) :
    grammar.CarriesOver (fun segment => !segment.isComment)
      (fun before before' _ => ∀ rule, grammar.line = some rule →
        rule.CountsAfter before → rule.CountsAfter before') where
  kept hreads hkept hrelated hfaded := by
    refine hreads.of_faded hsolid hfaded (fun _ => hrelated) ?_
    intro hcomment
    rw [hcomment] at hkept
    exact absurd hkept nofun
  same _ _ _ _ := id
  blanked _ _ c := fun rule _ _ => countsAfter_blank rule c

/-- The text with a space for every character of a comment, newlines apart. -/
def blankComments (grammar : Grammar) (code : String) : String :=
  String.ofList (code.toList.mapIdx fun place c =>
    if grammar.inComment code.toList place then blank c else c)

/-- The text with a space for every character outside the comments, newlines
apart. -/
def blankRest (grammar : Grammar) (code : String) : String :=
  String.ofList (code.toList.mapIdx fun place c =>
    if grammar.inComment code.toList place then c else blank c)

theorem toList_blankComments {grammar : Grammar} {code : String} {segments : List Segment}
    (h : grammar.IsSegmentation code.toList segments) :
    (grammar.blankComments code).toList =
      Segment.sources (Segment.fade Segment.isComment segments) := by
  have hmap := mapIdx_inComment h blank id
  rw [blankComments, String.toList_ofList, Segment.sources_fade, ← hmap]
  rfl

theorem toList_blankRest {grammar : Grammar} {code : String} {segments : List Segment}
    (h : grammar.IsSegmentation code.toList segments) :
    (grammar.blankRest code).toList =
      Segment.sources (Segment.fade (fun segment => !segment.isComment) segments) := by
  have hmap := mapIdx_inComment h id blank
  have hswap (segment : Segment) :
      (if (!segment.isComment) = true then blank else id) =
        if segment.isComment then id else blank := by
    cases segment.isComment <;> rfl
  simp only [Segment.sources_fade, hswap, ← hmap]
  rw [blankRest, String.toList_ofList]
  rfl

end Grammar

namespace Language

theorem solid (language : Language) : language.grammar.Solid := by
  cases language <;> exact ⟨by decide, by decide⟩

/-- Only a language without block comments asks its markers to start a word. -/
theorem wordStart_eq_false_of_block {language : Language} {line : LineRule} {block : BlockRule}
    (hline : language.grammar.line = some line) (hblock : language.grammar.block = some block) :
    line.wordStart = false := by
  have hall : ∀ line ∈ language.grammar.line.toList, ∀ block ∈ language.grammar.block.toList,
      line.wordStart = false := by
    cases language <;> decide
  exact hall line (by rw [hline]; exact List.mem_singleton_self _) block
    (by rw [hblock]; exact List.mem_singleton_self _)

/-- No comment is left behind: with its comments blanked, a text has none. -/
theorem scan_blankComments (language : Language) {code : String} {comments : List Comment}
    (h : language.grammar.scan code = .ok comments) :
    language.grammar.scan (language.grammar.blankComments code) = .ok [] := by
  obtain ⟨segments, hsegments, -⟩ := Grammar.scan_eq_ok_iff.mp h
  have hcarries := Grammar.carriesOver_comments language.solid
    fun _ _ => wordStart_eq_false_of_block
  have hcuts := hcarries.cuts_fade language.solid hsegments (hcarries.same none code.toList)
  rw [← Grammar.toList_blankComments hsegments] at hcuts
  rw [Grammar.IsSegmentation.scan_eq hcuts, Segment.commentsFrom_fade_comments]

theorem scan_blankComments_shell :
    shell.grammar.scan "a#b '#c' # d\r\n;## é" =
        .ok [.single " d" 1, .single " é" 2] ∧
      shell.grammar.blankComments "a#b '#c' # d\r\n;## é" = "a#b '#c'     \n;    " ∧
      shell.grammar.scan (shell.grammar.blankComments "a#b '#c' # d\r\n;## é") = .ok [] := by
  have hscan : shell.grammar.scan "a#b '#c' # d\r\n;## é" =
      .ok [.single " d" 1, .single " é" 2] := by
    decide +kernel
  exact ⟨hscan, by decide +kernel, scan_blankComments shell hscan⟩

/-- Only the comments matter: with everything else blanked, a text has the same
comments on the same lines. -/
theorem scan_blankRest (language : Language) {code : String} {comments : List Comment}
    (h : language.grammar.scan code = .ok comments) :
    language.grammar.scan (language.grammar.blankRest code) = .ok comments := by
  obtain ⟨segments, hsegments, rfl⟩ := Grammar.scan_eq_ok_iff.mp h
  have hcarries := Grammar.carriesOver_rest language.solid
  have hcuts := hcarries.cuts_fade language.solid hsegments (hcarries.same none code.toList)
  rw [← Grammar.toList_blankRest hsegments] at hcuts
  rw [Grammar.IsSegmentation.scan_eq hcuts, Segment.commentsFrom_fade_rest]

theorem scan_blankRest_fsharp :
    fsharp.grammar.scan "é(*)(* a\n*)// b\r\n\"//\n\"(**)" =
        .ok [.block " a\n" 1, .single " b" 2, .block "" 4] ∧
      fsharp.grammar.blankRest "é(*)(* a\n*)// b\r\n\"//\n\"(**)" =
        "    (* a\n*)// b\r\n   \n (**)" ∧
      fsharp.grammar.scan (fsharp.grammar.blankRest "é(*)(* a\n*)// b\r\n\"//\n\"(**)") =
        .ok [.block " a\n" 1, .single " b" 2, .block "" 4] := by
  have hscan : fsharp.grammar.scan "é(*)(* a\n*)// b\r\n\"//\n\"(**)" =
      .ok [.block " a\n" 1, .single " b" 2, .block "" 4] := by
    decide +kernel
  exact ⟨hscan, by decide +kernel, scan_blankRest fsharp hscan⟩

end Language

end Marginalia
