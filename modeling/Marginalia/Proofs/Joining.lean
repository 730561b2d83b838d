import Marginalia.Proofs.Blanking

/-! # Joining texts at a line break

No token of a language holds a newline, so no token reaches across a line break
that follows a text, and after a line break reading goes on as at the start of a
text. A text that leaves no literal open therefore keeps its comments when more
lines follow it, and these lines have their own comments, further down.
-/

namespace Marginalia

namespace Comment

/-- The comment as it stands when so many lines are put in front of it. -/
def lowerBy (lines : Nat) (comment : Comment) : Comment :=
  { comment with line := comment.line + lines }

end Comment

namespace Segment

theorem comment?_add (segment : Segment) (line lines : Nat) :
    segment.comment? (line + lines) = (segment.comment? line).map (·.lowerBy lines) := by
  cases segment <;> rfl

theorem commentsFrom_add (line lines : Nat) (segments : List Segment) :
    commentsFrom (line + lines) segments =
      (commentsFrom line segments).map (·.lowerBy lines) := by
  induction segments generalizing line with
  | nil => rfl
  | cons segment segments ih =>
      rw [commentsFrom, commentsFrom, List.map_append, ← ih, comment?_add, Nat.add_right_comm]
      cases segment.comment? line <;> rfl

/-- A literal that runs to the end of the text. -/
def isOpenLiteral : Segment → Bool
  | .literal _ _ closed => !closed
  | _ => false

end Segment

namespace Grammar

/-- Whether the text ends inside a literal that is not closed. -/
def endsInLiteral (grammar : Grammar) (text : List Char) : Bool :=
  (grammar.segments text).segments.getLast?.any Segment.isOpenLiteral

/-! ## The text in front of a line break -/

theorem Cuts.eq_nil_of_nil {grammar : Grammar} {before : Option Char} {segments : List Segment}
    {rest : List Char} (h : grammar.Cuts before [] segments rest) : segments = [] := by
  generalize htext : ([] : List Char) = text at h
  cases h with
  | nil => rfl
  | cons hreads _ =>
      obtain ⟨c, tail, hsource⟩ := hreads.exists_source_eq_cons
      rw [hsource] at htext
      exact absurd htext nofun

/-- The segments of a text stay as they are when no token reaches into what is
written after it, and no literal and no line comment takes any of it. -/
theorem Cuts.extend {grammar : Grammar} {before : Option Char} {text new : List Char}
    {segments : List Segment} (h : grammar.Cuts before text segments [])
    (hnarrow : grammar.Narrows new []) (hstops : ∀ c rest, new = c :: rest → c = '\n')
    (hclosed : segments.getLast?.any Segment.isOpenLiteral = false) :
    grammar.Cuts before (text ++ new) segments new := by
  generalize hend : ([] : List Char) = rest at h
  induction h with
  | nil =>
      subst hend
      exact .nil
  | @cons before segment after segments rest hreads htail ih =>
      have hlater : segments.getLast?.any Segment.isOpenLiteral = false := by
        cases segments with
        | nil => rfl
        | cons next segments => rwa [List.getLast?_cons_cons] at hclosed
      rw [List.append_assoc]
      refine .cons ?_ (ih hlater hend)
      have hwider := hnarrow.append after
      rw [List.append_nil] at hwider
      refine hreads.narrow hwider ?_ ?_ (fun _ _ _ => id) (fun _ => id)
      · intro hold
        cases after with
        | nil => exact hstops
        | cons d after =>
            rintro c tail htext
            obtain ⟨rfl, -⟩ := List.cons.inj htext
            exact hold _ _ rfl
      · -- only the last segment could be open, and it is not
        rintro rule body rfl
        cases hreads with
        | openLiteral =>
            obtain rfl := htail.eq_nil_of_nil
            exact absurd hclosed nofun

theorem Solid.narrows_newline {grammar : Grammar} (h : grammar.Solid) (after : List Char) :
    grammar.Narrows ('\n' :: after) [] := by
  intro token htoken front hstands
  rw [List.append_nil]
  rcases List.prefix_or_prefix_of_prefix hstands (List.prefix_append front _) with
    hshort | ⟨tail, htail⟩
  · exact hshort
  · -- a token that goes past the front would hold the newline
    rw [← htail, List.prefix_append_right_inj] at hstands
    cases tail with
    | nil => exact ⟨[], by rw [← htail, List.append_nil, List.append_nil]⟩
    | cons c tail =>
        obtain ⟨rfl, -⟩ := List.cons_prefix_cons.mp hstands
        refine absurd ?_ (h.token token htoken).2
        rw [← htail]
        exact List.mem_append_right _ List.mem_cons_self

/-! ## The text after a line break -/

/-- What is read at a place depends on the look-behind only as far as markers
count after it. -/
theorem Reads.of_countsAfter_iff {grammar : Grammar} {before before' : Option Char}
    {segment : Segment} {after : List Char} (h : grammar.Reads before segment after)
    (hbefore : ∀ rule, grammar.line = some rule →
      (rule.CountsAfter before ↔ rule.CountsAfter before')) :
    grammar.Reads before' segment after := by
  refine h.narrow (fun _ _ _ => id) id ?_ (fun _ rule hrule => (hbefore rule hrule).mp) ?_
  · rintro rule body rfl
    cases h with
    | openLiteral => rfl
  · intro _ hnone rule hrule hcounts
    exact hnone rule hrule ((hbefore rule hrule).mpr hcounts)

theorem Cuts.of_countsAfter_iff {grammar : Grammar} {before before' : Option Char}
    {text rest : List Char} {segments : List Segment}
    (h : grammar.Cuts before text segments rest)
    (hbefore : ∀ rule, grammar.line = some rule →
      (rule.CountsAfter before ↔ rule.CountsAfter before')) :
    grammar.Cuts before' text segments rest := by
  cases h with
  | nil => exact .nil
  | cons hreads htail => exact .cons (hreads.of_countsAfter_iff hbefore) htail

/-- A line break is as good as the start of a text. -/
theorem Cuts.after_newline {grammar : Grammar} {text rest : List Char} {segments : List Segment}
    (h : grammar.Cuts none text segments rest) :
    grammar.Cuts (some '\n') text segments rest := by
  refine h.of_countsAfter_iff fun rule _ => iff_of_true ?_ (countsAfter_blank rule '\n')
  intro _ c hc
  exact absurd hc nofun

/-- What is read at a newline is the newline alone. -/
theorem Solid.eq_plain_newline {grammar : Grammar} (h : grammar.Solid) {before : Option Char}
    {segment : Segment} {after rest : List Char} (hreads : grammar.Reads before segment after)
    (htext : '\n' :: rest = segment.source ++ after) : segment = .plain '\n' ∧ after = rest := by
  have hnewline : grammar.Reads before (.plain '\n') rest :=
    .of_not_mem_triggers (h.blank_not_mem_triggers '\n') before rest
  have hsame := (hreads.next?_eq htext).symm.trans (hnewline.next?_eq rfl)
  exact Prod.mk.inj (Option.some.inj hsame)

/-! ## Both together -/

/-- The segments of two texts with a line break between them. -/
theorem Solid.cuts_append_newline {grammar : Grammar} (h : grammar.Solid)
    {text text' rest : List Char} {first second : List Segment}
    (hfirst : grammar.IsSegmentation text first)
    (hclosed : first.getLast?.any Segment.isOpenLiteral = false)
    (hsecond : grammar.Cuts none text' second rest) :
    grammar.Cuts none (text ++ '\n' :: text') (first ++ .plain '\n' :: second) rest := by
  have hextended := Cuts.extend hfirst (h.narrows_newline text')
    (fun _ _ hafter => (List.cons.inj hafter).1.symm) hclosed
  exact hextended.append
    (.cons (.of_not_mem_triggers (h.blank_not_mem_triggers '\n') _ text') hsecond.after_newline)

end Grammar

namespace Language

/-- Scanning composes at line breaks: a text that is scanned and leaves no literal
open keeps its comments when a line break and another text follow it. The other
text has the comments, or the failure, that it has on its own, as many lines
further down as the first text has. -/
theorem scan_append_newline (language : Language) {first second : String}
    {comments : List Comment} (hscan : language.grammar.scan first = .ok comments)
    (hclosed : language.grammar.endsInLiteral first.toList = false) :
    (∀ later, language.grammar.scan second = .ok later →
      language.grammar.scan (first ++ "\n" ++ second) =
        .ok (comments ++ later.map (·.lowerBy (first.toList.count '\n' + 1)))) ∧
    (∀ failure, language.grammar.scan second = .error failure →
      language.grammar.scan (first ++ "\n" ++ second) =
        .error ⟨failure.line + (first.toList.count '\n' + 1)⟩) := by
  obtain ⟨segments, hsegments, rfl⟩ := Grammar.scan_eq_ok_iff.mp hscan
  rw [Grammar.endsInLiteral, hsegments.segments_eq] at hclosed
  have htext : (first ++ "\n" ++ second).toList = first.toList ++ '\n' :: second.toList := by
    simp
  have hcuts {later : List Segment} {rest : List Char}
      (hlater : language.grammar.Cuts none second.toList later rest) :=
    htext ▸ language.solid.cuts_append_newline hsegments hclosed hlater
  have hsources : Segment.sources segments = first.toList :=
    (hsegments.text_eq.trans (List.append_nil _)).symm
  constructor
  · intro later hok
    obtain ⟨later, hlater, rfl⟩ := Grammar.scan_eq_ok_iff.mp hok
    rw [Grammar.IsSegmentation.scan_eq (hcuts hlater), Segment.commentsFrom_append, hsources,
      ← Segment.commentsFrom_add, ← Nat.add_assoc]
    rfl
  · intro failure herror
    obtain ⟨later, rest, hlater, hstuck, hline⟩ := Grammar.scan_eq_error_iff.mp herror
    have hlines : 1 + (Segment.sources (segments ++ .plain '\n' :: later)).count '\n' =
        failure.line + (first.toList.count '\n' + 1) := by
      rw [hline, Segment.sources_append, hsources, Segment.sources_cons, List.count_append,
        List.count_append, Segment.source, List.count_singleton_self]
      omega
    rw [(hcuts hlater).scan_eq_of_stuck hstuck, hlines]

/-- The first text ends with a line comment that a carriage return follows, the
second starts with a marker, as only a word may. -/
theorem scan_append_newline_shell :
    shell.grammar.scan "'\n#' # é\r" = .ok [.single " é" 2] ∧
      shell.grammar.endsInLiteral "'\n#' # é\r".toList = false ∧
      shell.grammar.scan "## b\na#" = .ok [.single " b" 1] ∧
      shell.grammar.scan ("'\n#' # é\r" ++ "\n" ++ "## b\na#") =
        .ok [.single " é" 2, .single " b" 3] := by
  have hfirst : shell.grammar.scan "'\n#' # é\r" = .ok [.single " é" 2] := by decide +kernel
  have hclosed : shell.grammar.endsInLiteral "'\n#' # é\r".toList = false := by decide +kernel
  have hsecond : shell.grammar.scan "## b\na#" = .ok [.single " b" 1] := by decide +kernel
  exact ⟨hfirst, hclosed, hsecond, (scan_append_newline shell hfirst hclosed).1 _ hsecond⟩

end Language

end Marginalia
