import Mathlib.Data.List.Basic
import Marginalia.Proofs.Rendering

/-! # The inside of a literal

Segments that end at a place do not depend on the text after it, so a text has
the same segments in front of a literal whatever the literal holds. After the
literal, reading goes on from its closing delimiter. What a literal holds can
therefore change nothing but the lines of the comments after it.
-/

namespace Marginalia

/-- Two cuts of a text at the same byte offset are the same cut. -/
theorem append_inj_of_utf8Length_eq {front front' rest rest' : List Char}
    (htext : front ++ rest = front' ++ rest') (hsize : utf8Length front = utf8Length front') :
    front = front' ∧ rest = rest' := by
  induction front generalizing front' with
  | nil =>
      cases front' with
      | nil => exact ⟨rfl, htext⟩
      | cons c front' =>
          have hpos := c.utf8Size_pos
          rw [utf8Length_cons, utf8Length_nil] at hsize
          omega
  | cons c front ih =>
      cases front' with
      | nil =>
          have hpos := c.utf8Size_pos
          rw [utf8Length_cons, utf8Length_nil] at hsize
          omega
      | cons d front' =>
          obtain ⟨rfl, htail⟩ := List.cons.inj htext
          rw [utf8Length_cons, utf8Length_cons, Nat.add_left_cancel_iff] at hsize
          obtain ⟨rfl, hrest⟩ := ih htail hsize
          exact ⟨rfl, hrest⟩

/-! ## The places at which segments are decided -/

namespace Segment

/-- The byte offsets at which consecutive segments start, the first of them at
`offset`, and last the offset of their end. -/
def headsFrom (offset : Nat) : List Segment → List Nat
  | [] => [offset]
  | segment :: segments => offset :: headsFrom (offset + segment.size) segments

theorem exists_append_of_mem_headsFrom {offset head : Nat} {segments : List Segment}
    (h : head ∈ headsFrom offset segments) :
    ∃ first second, segments = first ++ second ∧ head = offset + utf8Length (sources first) := by
  induction segments generalizing offset with
  | nil => exact ⟨[], [], rfl, List.mem_singleton.mp h⟩
  | cons segment segments ih =>
      rcases List.mem_cons.mp h with rfl | hlater
      · exact ⟨[], segment :: segments, rfl, rfl⟩
      · obtain ⟨first, second, rfl, rfl⟩ := ih hlater
        refine ⟨segment :: first, second, rfl, ?_⟩
        rw [sources_cons, utf8Length_append, size, Nat.add_assoc]

end Segment

namespace Grammar

/-- The byte offsets that reading a text comes to: where it decides on a segment,
and where it ends. -/
def heads (grammar : Grammar) (text : List Char) : List Nat :=
  Segment.headsFrom 0 (grammar.segments text).segments

theorem Cuts.exists_of_append {grammar : Grammar} {before : Option Char} {text rest : List Char}
    {first second : List Segment} (h : grammar.Cuts before text (first ++ second) rest) :
    ∃ middle, grammar.Cuts before text first middle := by
  induction first generalizing before text with
  | nil => exact ⟨text, .nil⟩
  | cons segment first ih =>
      cases h with
      | cons hreads htail =>
          obtain ⟨middle, hmiddle⟩ := ih htail
          exact ⟨middle, .cons hreads hmiddle⟩

/-- Where reading comes to the end of `front`, the segments so far make up
`front`. -/
theorem exists_cuts_of_mem_heads {grammar : Grammar} {front rest : List Char}
    (h : utf8Length front ∈ grammar.heads (front ++ rest)) :
    ∃ segments, grammar.Cuts none (front ++ rest) segments rest := by
  obtain ⟨segments, stop, hcuts, hstop⟩ := grammar.exists_cuts none (front ++ rest)
  have hsegments : (grammar.segments (front ++ rest)).segments = segments := by
    rcases hstop with rfl | hstuck
    · rw [IsSegmentation.segments_eq hcuts]
    · rw [hcuts.segments_eq_of_stuck hstuck]
  rw [heads, hsegments] at h
  -- among all segments of the text, those up to the given offset
  obtain ⟨first, second, rfl, hsize⟩ := Segment.exists_append_of_mem_headsFrom h
  obtain ⟨middle, hfirst⟩ := hcuts.exists_of_append
  rw [Nat.zero_add] at hsize
  obtain ⟨-, rfl⟩ := append_inj_of_utf8Length_eq hfirst.text_eq hsize
  exact ⟨first, hfirst⟩

/-! ## Cutting a text off -/

/-- A shorter text has no token that the longer one does not have. -/
theorem narrows_append (grammar : Grammar) (kept rest : List Char) :
    grammar.Narrows kept (kept ++ rest) := by
  intro token _ front hstands
  rw [← List.append_assoc]
  exact hstands.trans (List.prefix_append _ _)

/-- A segment does not depend on what stands further behind it. -/
theorem Reads.truncate {grammar : Grammar} {before : Option Char} {segment : Segment}
    {kept rest : List Char} (h : grammar.Reads before segment (kept ++ rest)) :
    grammar.Reads before segment kept := by
  refine h.narrow (grammar.narrows_append kept rest) ?_ ?_ (fun _ _ _ => id) (fun _ => id)
  · rintro hstops c tail rfl
    exact hstops c (tail ++ rest) rfl
  · rintro rule body rfl
    generalize hafter : kept ++ rest = after at h
    cases h with
    | openLiteral => exact (List.append_eq_nil_iff.mp hafter).1

/-- Segments of the front of a text are the segments of the front alone. -/
theorem Cuts.truncate {grammar : Grammar} {before : Option Char} {text rest : List Char}
    {segments : List Segment} (h : grammar.Cuts before text segments rest) :
    grammar.Cuts before (Segment.sources segments) segments [] := by
  induction h with
  | nil => exact .nil
  | cons hreads htail ih =>
      rw [htail.text_eq] at hreads
      exact .cons hreads.truncate ih

/-- Two texts with a common front that both are read up to its end have the same
segments there. -/
theorem Cuts.eq_of_common_front {grammar : Grammar} {front rest rest' : List Char}
    {segments segments' : List Segment} (h : grammar.Cuts none (front ++ rest) segments rest)
    (h' : grammar.Cuts none (front ++ rest') segments' rest') : segments = segments' := by
  have hfront := List.append_cancel_right h.text_eq
  have hfront' := List.append_cancel_right h'.text_eq
  have hown := h.truncate
  have hown' := h'.truncate
  rw [← hfront] at hown
  rw [← hfront'] at hown'
  exact IsSegmentation.unique hown hown'

end Grammar

/-! ## Exchanging what a literal holds -/

/-- The literal with the given body, written out. -/
def LiteralRule.quote (rule : LiteralRule) (body : List Char) : String :=
  String.ofList (rule.delimiter :: (body ++ [rule.delimiter]))

namespace Segment

/-- Segments that are no comments matter to the comments around them only by
their newlines. -/
theorem commentsFrom_exchange {segment segment' : Segment} (hcomment : segment.isComment = false)
    (hcomment' : segment'.isComment = false)
    (hlines : segment.source.count '\n' = segment'.source.count '\n') (line : Nat)
    (first second : List Segment) :
    commentsFrom line (first ++ segment :: second) =
      commentsFrom line (first ++ segment' :: second) := by
  rw [commentsFrom_append, commentsFrom_append, commentsFrom, commentsFrom,
    comment?_eq_none hcomment, comment?_eq_none hcomment', hlines]

end Segment

namespace Grammar

/-- After any segments, a literal is read up to its closing delimiter, which is
the look-behind for the text after it. -/
theorem Separable.cuts_around_literal {grammar : Grammar} (h : grammar.Separable)
    {rule : LiteralRule} (hrule : rule ∈ grammar.literals) {body : List Char}
    (hunits : rule.Units body) {text post rest : List Char} {first second : List Segment}
    (hfirst : grammar.Cuts none text first ((Segment.literal rule body true).source ++ post))
    (hsecond : grammar.Cuts (some rule.delimiter) post second rest) :
    grammar.Cuts none text (first ++ .literal rule body true :: second) rest := by
  refine hfirst.append (.cons (h.reads_literal hrule hunits _ post) ?_)
  have hlast : (Segment.literal rule body true).source.getLast? = some rule.delimiter := by
    rw [Segment.source, if_pos rfl, ← List.cons_append, List.getLast?_concat]
  rwa [hlast]

end Grammar

namespace Language

/-- What a literal holds never influences the result of scanning: where two texts
differ in the body of one literal only, and reading both comes to its opening
delimiter, bodies with as many newlines give the same comments on the same lines
or the same failure. -/
theorem scan_quote_congr (language : Language) {rule : LiteralRule}
    (hrule : rule ∈ language.grammar.literals) {body body' : List Char}
    (hunits : rule.Units body) (hunits' : rule.Units body')
    (hlines : body.count '\n' = body'.count '\n') (pre post : String)
    (hreached : utf8Length pre.toList ∈
      language.grammar.heads (pre ++ rule.quote body ++ post).toList)
    (hreached' : utf8Length pre.toList ∈
      language.grammar.heads (pre ++ rule.quote body' ++ post).toList) :
    language.grammar.scan (pre ++ rule.quote body ++ post) =
      language.grammar.scan (pre ++ rule.quote body' ++ post) := by
  have htext (body : List Char) : (pre ++ rule.quote body ++ post).toList =
      pre.toList ++ ((Segment.literal rule body true).source ++ post.toList) := by
    simp [LiteralRule.quote, Segment.source]
  rw [htext] at hreached hreached'
  obtain ⟨first, hfirst⟩ := Grammar.exists_cuts_of_mem_heads hreached
  obtain ⟨first', hfirst'⟩ := Grammar.exists_cuts_of_mem_heads hreached'
  -- what is read in front of the literal is read without it, so it is the same twice
  obtain rfl := hfirst.eq_of_common_front hfirst'
  rw [← htext] at hfirst hfirst'
  obtain ⟨second, rest, hsecond, hrest⟩ :=
    language.grammar.exists_cuts (some rule.delimiter) post.toList
  -- and both runs go on behind the closing delimiter
  have hcuts := language.separable.cuts_around_literal hrule hunits hfirst hsecond
  have hcuts' := language.separable.cuts_around_literal hrule hunits' hfirst' hsecond
  have hsource : (Segment.literal rule body true).source.count '\n' =
      (Segment.literal rule body' true).source.count '\n' := by
    simp [Segment.source, List.count_cons, List.count_append, hlines]
  rcases hrest with rfl | hstuck
  · rw [Grammar.IsSegmentation.scan_eq hcuts, Grammar.IsSegmentation.scan_eq hcuts',
      Segment.commentsFrom_exchange rfl rfl hsource]
  · rw [hcuts.scan_eq_of_stuck hstuck, hcuts'.scan_eq_of_stuck hstuck, Segment.sources_append,
      Segment.sources_append, Segment.sources_cons, Segment.sources_cons, List.count_append,
      List.count_append, List.count_append, List.count_append, hsource]

/-- One body looks like the end of a comment and the start of another, the other
one holds an escaped delimiter and a quote. -/
theorem scan_quote_congr_javascript :
    javascript.grammar.scan ("/*\x60*/é" ++
        LiteralRule.quote ⟨'\x60', some '\\'⟩ ['*', '/', '\n', '/', '*'] ++ "// b\n/*") =
      .error ⟨3⟩ ∧
    javascript.grammar.scan ("/*\x60*/é" ++
        LiteralRule.quote ⟨'\x60', some '\\'⟩ ['\\', '\x60', '\n', '"'] ++ "// b\n/*") =
      .error ⟨3⟩ := by
  have hunits : LiteralRule.Units ⟨'\x60', some '\\'⟩ ['*', '/', '\n', '/', '*'] :=
    .other nofun nofun (.other nofun nofun (.other nofun nofun (.other nofun nofun
      (.other nofun nofun .nil))))
  have hunits' : LiteralRule.Units ⟨'\x60', some '\\'⟩ ['\\', '\x60', '\n', '"'] :=
    .escaped rfl (.other nofun nofun (.other nofun nofun .nil))
  have hcongr := scan_quote_congr javascript (by decide) hunits hunits' (by decide)
    "/*\x60*/é" "// b\n/*" (by decide +kernel) (by decide +kernel)
  have hscan : javascript.grammar.scan ("/*\x60*/é" ++
      LiteralRule.quote ⟨'\x60', some '\\'⟩ ['*', '/', '\n', '/', '*'] ++ "// b\n/*") =
      .error ⟨3⟩ := by
    decide +kernel
  exact ⟨hscan, hcongr ▸ hscan⟩

end Language

end Marginalia
