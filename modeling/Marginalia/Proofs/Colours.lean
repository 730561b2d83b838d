import Mathlib
import Marginalia.Proofs.Messages
import Marginalia.Proofs.Nesting
import Marginalia.Proofs.Records

/-! # Colours and content

What is written with colours differs from what is written without by the sequences
that switch colours. Paths and comments may hold such sequences or parts of them. No
part can join an inserted sequence or reach over the place of one, because coloured
text is followed by a character that occurs in no sequence, and so is all other text
ended. Removing every sequence therefore leaves the same text with colours as
without.
-/

namespace Marginalia.Report

/-! ## Removing sequences -/

def escape : Char :=
  '\x1b'

/-- The sequences that switch colours. -/
def sequences : List Token :=
  [⟨escape, ['[', '0', 'm']⟩, ⟨escape, ['[', '3', '5', 'm']⟩, ⟨escape, ['[', '3', '2', 'm']⟩,
    ⟨escape, ['[', '3', '6', 'm']⟩]

/-- Removes the sequences from a text in one pass from left to right. -/
def uncoloured (text : List Char) : List Char :=
  match text with
  | [] => []
  | c :: rest =>
      match _hfound : sequences.findSome? (·.strip? (c :: rest)) with
      | some after => uncoloured after
      | none => c :: uncoloured rest
termination_by text.length
decreasing_by
  · obtain ⟨token, -, hstrip⟩ := List.exists_of_findSome?_eq_some _hfound
    exact Token.length_lt_of_strip? hstrip
  · exact Nat.lt_succ_self _

/-- The text without the sequences in it. -/
def uncolour (text : String) : String :=
  String.ofList (uncoloured text.toList)

theorem exists_sequence_reset : ∃ token ∈ sequences, reset.toList = token.chars :=
  ⟨⟨escape, ['[', '0', 'm']⟩, by decide, by decide +kernel⟩

theorem exists_sequence_colour (colour : Colour) :
    ∃ token ∈ sequences, colour.sequence.toList = token.chars := by
  cases colour with
  | magenta => exact ⟨⟨escape, ['[', '3', '5', 'm']⟩, by decide, by decide +kernel⟩
  | green => exact ⟨⟨escape, ['[', '3', '2', 'm']⟩, by decide, by decide +kernel⟩
  | cyan => exact ⟨⟨escape, ['[', '3', '6', 'm']⟩, by decide, by decide +kernel⟩

/-- No sequence stands at the head of another. -/
theorem sequence_unique : ∀ token ∈ sequences, ∀ other ∈ sequences,
    token.chars <+: other.chars → token = other := by
  decide

theorem first_sequence : ∀ token ∈ sequences, token.first = escape := by
  decide

@[simp] theorem uncoloured_nil : uncoloured [] = [] := by
  rw [uncoloured]

theorem uncoloured_cons_of_not {c : Char} {rest : List Char}
    (h : ∀ token ∈ sequences, ¬ token.chars <+: c :: rest) :
    uncoloured (c :: rest) = c :: uncoloured rest := by
  have hnone : sequences.findSome? (·.strip? (c :: rest)) = none := by
    rw [List.findSome?_eq_none_iff]
    exact fun token htoken => Token.strip?_eq_none_iff.mpr (h token htoken)
  rw [uncoloured]
  split
  next after hfound => exact absurd (hfound.symm.trans hnone) (Option.some_ne_none _)
  next => rfl

/-- A sequence at the head of a text is removed. -/
theorem uncoloured_sequence {token : Token} (h : token ∈ sequences) (rest : List Char) :
    uncoloured (token.chars ++ rest) = uncoloured rest := by
  change uncoloured (token.first :: (token.rest ++ rest)) = _
  rw [uncoloured]
  split
  next after hfound =>
    obtain ⟨other, hother, hstrip⟩ := List.exists_of_findSome?_eq_some hfound
    have htext : token.chars ++ rest = other.chars ++ after := Token.strip?_eq_some_iff.mp hstrip
    have hsame : token = other := by
      rcases List.prefix_or_prefix_of_prefix (List.prefix_append token.chars rest)
        (htext ▸ List.prefix_append other.chars after) with hshort | hlong
      · exact sequence_unique token h other hother hshort
      · exact (sequence_unique other hother token h hlong).symm
    subst hsame
    rw [List.append_cancel_left htext]
  next hnone =>
    rw [List.findSome?_eq_none_iff] at hnone
    exact absurd (List.prefix_append token.chars rest)
      (Token.strip?_eq_none_iff.mp (hnone token h))

theorem uncoloured_of_not_mem {text : List Char} (h : escape ∉ text) : uncoloured text = text := by
  induction text with
  | nil => exact uncoloured_nil
  | cons c rest ih =>
      rw [List.mem_cons, not_or] at h
      rw [uncoloured_cons_of_not, ih h.2]
      intro token htoken
      exact Token.not_prefix_of_first_ne (first_sequence token htoken ▸ h.1)

/-! ## Where a text can be taken apart -/

/-- The character does not continue any sequence. -/
def Fresh (c : Char) : Prop :=
  ∀ token ∈ sequences, c ∉ token.rest

/-- The character occurs in no sequence. -/
def Neutral (c : Char) : Prop :=
  c ≠ escape ∧ Fresh c

instance (c : Char) : Decidable (Fresh c) :=
  inferInstanceAs (Decidable (∀ token ∈ sequences, _))

instance (c : Char) : Decidable (Neutral c) :=
  inferInstanceAs (Decidable (_ ∧ _))

theorem fresh_escape : Fresh escape := by decide

/-- In front of a character that continues no sequence, a text falls into two parts
that keep nothing of each other. -/
theorem uncoloured_append {c : Char} (h : Fresh c) (text rest : List Char) :
    uncoloured (text ++ c :: rest) = uncoloured text ++ uncoloured (c :: rest) := by
  fun_induction uncoloured text with
  | case1 => rfl
  | case2 d text after hfound ih =>
      obtain ⟨token, htoken, hstrip⟩ := List.exists_of_findSome?_eq_some hfound
      rw [Token.strip?_eq_some_iff.mp hstrip, List.append_assoc, uncoloured_sequence htoken, ih]
  | case3 d text hnone ih =>
      rw [List.findSome?_eq_none_iff] at hnone
      rw [List.cons_append, uncoloured_cons_of_not, ih, List.cons_append]
      intro token htoken hstands
      -- a sequence that starts in the text would have to reach the character
      obtain ⟨size, hsize, hfront, htail⟩ := Token.exists_take_of_prefix_append hstands
        (Token.strip?_eq_none_iff.mp (hnone token htoken))
      cases size with
      | zero => exact List.cons_ne_nil _ _ hfront
      | succ size =>
          obtain ⟨e, more, hmore⟩ : ∃ e more, token.rest.drop size = e :: more := by
            apply List.exists_cons_of_length_pos
            rw [List.length_drop]
            have hlength : token.length = token.rest.length + 1 := rfl
            omega
          have hdrop : token.chars.drop (size + 1) = e :: more := hmore
          rw [hdrop] at htail
          obtain rfl := (List.cons_prefix_cons.mp htail).1
          exact h token htoken (List.mem_of_mem_drop (hmore ▸ List.mem_cons_self))

theorem uncoloured_cons_of_neutral {c : Char} (h : Neutral c) (rest : List Char) :
    uncoloured (c :: rest) = c :: uncoloured rest := by
  apply uncoloured_cons_of_not
  intro token htoken
  exact Token.not_prefix_of_first_ne (first_sequence token htoken ▸ Ne.symm h.1)

/-- After a character that occurs in no sequence a text falls into two parts as
well. -/
theorem uncoloured_append_of_getLast? {c : Char} (h : Neutral c) {text : List Char}
    (hlast : text.getLast? = some c) (rest : List Char) :
    uncoloured (text ++ rest) = uncoloured text ++ uncoloured rest := by
  obtain ⟨front, rfl⟩ := List.getLast?_eq_some_iff.mp hlast
  rw [List.append_assoc, List.singleton_append, uncoloured_append h.2, uncoloured_append h.2,
    uncoloured_cons_of_neutral h, uncoloured_cons_of_neutral h, uncoloured_nil, List.append_assoc,
    List.singleton_append]

/-! ## Spans that keep apart -/

/-- A neutral character stands after every coloured text and at the end of every
plain one. -/
inductive Fenced : List Span → Prop where
  | nil : Fenced []
  | plain {text : String} {spans : List Span} {c : Char} (last : text.toList.getLast? = some c)
      (neutral : Neutral c) (tail : Fenced spans) : Fenced (.plain text :: spans)
  | coloured {colour : Colour} {text fence : String} {spans : List Span} {c : Char}
      (first : fence.toList.head? = some c) (neutral : Neutral c)
      (tail : Fenced (.plain fence :: spans)) :
      Fenced (.coloured colour text :: .plain fence :: spans)

theorem Fenced.append {spans more : List Span} (h : Fenced spans) (hmore : Fenced more) :
    Fenced (spans ++ more) := by
  induction h with
  | nil => exact hmore
  | plain hlast hneutral _ ih => exact .plain hlast hneutral ih
  | coloured hfirst hneutral _ ih => exact .coloured hfirst hneutral ih

theorem toList_render_cons (colours : Bool) (span : Span) (spans : List Span) :
    (render colours (span :: spans)).toList =
      (span.render colours).toList ++ (render colours spans).toList := by
  rw [render, List.map_cons, String.join_cons, String.toList_append]
  rfl

/-- The sequences around a coloured text are removed with the sequences in it. -/
theorem uncoloured_render_coloured (colours : Bool) (colour : Colour) (text : String) {c : Char}
    (h : Neutral c) (rest : List Char) :
    uncoloured (((Span.coloured colour text).render colours).toList ++ c :: rest) =
      uncoloured text.toList ++ uncoloured (c :: rest) := by
  cases colours with
  | false => exact uncoloured_append h.2 _ _
  | true =>
      obtain ⟨first, hfirst, hreset⟩ := exists_sequence_reset
      obtain ⟨second, hsecond, hcolour⟩ := exists_sequence_colour colour
      have hend (rest : List Char) : first.chars ++ rest = escape :: (first.rest ++ rest) := by
        rw [Token.chars, first_sequence first hfirst, List.cons_append]
      simp only [Span.render, Span.coloured, if_true, String.toList_append, hreset, hcolour,
        List.append_assoc]
      rw [uncoloured_sequence hfirst, uncoloured_sequence hsecond, hend,
        uncoloured_append fresh_escape, ← hend, uncoloured_sequence hfirst]

/-- What is left of fenced spans does not depend on whether colours are shown. -/
theorem uncoloured_render (colours : Bool) {spans : List Span} (h : Fenced spans) :
    uncoloured (render colours spans).toList =
      spans.flatMap fun span => uncoloured span.text.toList := by
  induction h with
  | nil => exact uncoloured_nil
  | @plain text spans c hlast hneutral htail ih =>
      rw [toList_render_cons, List.flatMap_cons, ← ih]
      exact uncoloured_append_of_getLast? hneutral hlast _
  | @coloured colour text fence spans c hfirst hneutral htail ih =>
      obtain ⟨more, hfence⟩ := List.head?_eq_some_iff.mp hfirst
      have hrest : (render colours (.plain fence :: spans)).toList =
          c :: (more ++ (render colours spans).toList) := by
        rw [toList_render_cons, ← List.cons_append, ← hfence]
        rfl
      rw [toList_render_cons, List.flatMap_cons, ← ih, hrest]
      exact uncoloured_render_coloured colours colour text hneutral _

/-! ## Reports -/

theorem neutral_newline : Neutral '\n' := by decide

theorem neutral_colon : Neutral ':' := by decide

theorem getLast?_newline_unlines (lines : List (List Char)) :
    ('\n' :: Text.unlines lines).getLast? = some '\n' := by
  induction lines using List.reverseRecOn with
  | nil => rfl
  | append_singleton lines line _ =>
      rw [Text.unlines_append, Text.unlines_cons, ← List.cons_append, List.getLast?_append]
      simp [Text.unlines]

theorem getLast?_body (comment : Comment) : (body comment).toList.getLast? = some '\n' := by
  rw [toList_body]
  split
  · exact getLast?_newline_unlines _
  · rw [← List.cons_append, List.getLast?_concat]

theorem fenced_commentRecord (path : String) (comment : Comment) :
    Fenced (commentRecord path comment) :=
  .coloured rfl neutral_colon <| .plain rfl neutral_colon <| .coloured rfl neutral_colon <|
    .plain rfl neutral_colon <| .plain (getLast?_body comment) neutral_newline .nil

theorem fenced_fileRecords (file : CommentedFile) : Fenced (fileRecords file) := by
  rw [fileRecords]
  induction file.comments with
  | nil => exact .nil
  | cons comment comments ih => exact (fenced_commentRecord _ comment).append ih

theorem fenced_summary (tally : Tally) : Fenced (summary tally) :=
  .plain rfl neutral_newline <| .coloured rfl neutral_newline <| .plain rfl neutral_newline .nil

theorem fenced_call (tally : Tally) (call : Call) : Fenced (tally.call call).2 := by
  cases call with
  | file file => exact fenced_fileRecords file
  | summary => exact fenced_summary tally
  | flush => exact .nil

theorem fenced_callSpans (tally : Tally) (calls : List Call) : Fenced (callSpans tally calls) := by
  induction calls generalizing tally with
  | nil => exact .nil
  | cons call calls ih => exact (fenced_call tally call).append (ih _)

/-! ## Reports without escapes -/

/-- The texts of the spans hold no escape. -/
def Quiet (spans : List Span) : Prop :=
  ∀ span ∈ spans, escape ∉ span.text.toList

theorem toList_render_false (spans : List Span) :
    (render false spans).toList = spans.flatMap fun span => span.text.toList := by
  induction spans with
  | nil => rfl
  | cons span spans ih =>
      rw [toList_render_cons, ih, List.flatMap_cons]
      obtain ⟨colour, text⟩ := span
      cases colour <;> rfl

/-- Where no text holds an escape, removing the sequences from the fenced spans gives
their texts. -/
theorem uncoloured_render_of_quiet {spans : List Span} (h : Fenced spans) (hquiet : Quiet spans) :
    uncoloured (render true spans).toList = (render false spans).toList := by
  rw [uncoloured_render true h, toList_render_false]
  exact List.flatMap_congr fun span hspan => uncoloured_of_not_mem (hquiet span hspan)

theorem escape_not_mem_toString (n : Nat) : escape ∉ (ToString.toString n).toList := fun hmem =>
  absurd (Text.isDigit_of_mem_toString hmem) (by decide)

theorem subset_of_mem_lines {text line : List Char} (h : line ∈ Text.lines text) :
    Text.trimEnd line ⊆ text := by
  obtain ⟨piece, hpiece, rfl⟩ := List.mem_map.mp h
  rw [Text.trimEnd_dropLineEnd]
  intro c hc
  rw [← Text.pieces_flatten text]
  exact List.mem_flatten.mpr ⟨piece, hpiece, Text.trimEnd_subset _ hc⟩

theorem escape_not_mem_body {comment : Comment} (h : escape ∉ comment.text.toList) :
    escape ∉ (body comment).toList := by
  rw [toList_body]
  split
  next hnewline =>
    have hbelow : ∀ line ∈ below comment, escape ∉ line := by
      intro line hline
      rw [below, if_pos hnewline] at hline
      obtain ⟨trimmed, htrimmed, rfl⟩ := List.mem_map.mp hline
      obtain ⟨kept, hkept, rfl⟩ := List.mem_map.mp htrimmed
      have hnot : escape ∉ Text.trimEnd kept := fun hmem => h (subset_of_mem_lines hkept hmem)
      unfold indented
      split
      · exact List.not_mem_nil
      · rw [List.mem_append, not_or]
        exact ⟨by decide +kernel, hnot⟩
    rw [List.mem_cons, not_or, Text.unlines, List.mem_flatMap]
    refine ⟨by decide, ?_⟩
    rintro ⟨line, hline, hmem⟩
    rcases List.mem_append.mp hmem with hkept | hend
    · exact hbelow line hline hkept
    · exact absurd (List.mem_singleton.mp hend) (by decide)
  next =>
    have htrim : escape ∉ Text.trim comment.text.toList := fun hmem => h (Text.trim_subset _ hmem)
    rw [List.mem_cons, List.mem_append, List.mem_singleton, not_or, not_or]
    exact ⟨by decide, htrim, by decide⟩

theorem quiet_fileRecords {file : CommentedFile} (hpath : escape ∉ file.path.display.toList)
    (hcomments : ∀ comment ∈ file.comments, escape ∉ comment.text.toList) :
    Quiet (fileRecords file) := by
  intro span hspan
  obtain ⟨comment, hcomment, hmem⟩ := List.mem_flatMap.mp hspan
  have hrange : escape ∉ (lineRange comment).toList := fun hmem =>
    absurd (digit_or_dash_of_mem_lineRange hmem) (by decide)
  have hbody := escape_not_mem_body (hcomments comment hcomment)
  have hcolon : escape ∉ ":".toList := by decide +kernel
  simp only [commentRecord, location, List.cons_append, List.nil_append, List.mem_cons,
    List.not_mem_nil, or_false] at hmem
  rcases hmem with rfl | rfl | rfl | rfl | rfl
  · exact hpath
  · exact hcolon
  · exact hrange
  · exact hcolon
  · exact hbody

theorem escape_not_mem_counted (count : Nat) {noun : String} (h : escape ∉ noun.toList) :
    escape ∉ (counted count noun).toList := by
  have hplural : escape ∉ (if count = 1 then "" else "s").toList := by
    split <;> decide +kernel
  have hblank : escape ∉ " ".toList := by decide +kernel
  simp only [counted, String.toList_append, List.mem_append, not_or]
  exact ⟨⟨⟨escape_not_mem_toString count, hblank⟩, h⟩, hplural⟩

theorem quiet_summary (tally : Tally) : Quiet (summary tally) := by
  have hnewline : escape ∉ "\n".toList := by decide +kernel
  have hcounts : escape ∉
      (counted tally.comments "comment" ++ " in " ++ counted tally.files "file").toList := by
    simp only [String.toList_append, List.mem_append, not_or]
    exact ⟨⟨escape_not_mem_counted _ (by decide +kernel), by decide +kernel⟩,
      escape_not_mem_counted _ (by decide +kernel)⟩
  intro span hspan
  simp only [summary, List.mem_cons, List.not_mem_nil, or_false] at hspan
  rcases hspan with rfl | rfl | rfl
  · exact hnewline
  · exact hcounts
  · exact hnewline

/-- The byte of an escape in a path. -/
def escapeByte : UInt8 :=
  0x1B

theorem escape_not_mem_display {path : Path} (h : escapeByte ∉ path.bytes) :
    escape ∉ path.display.toList := by
  rw [Path.display, String.toList_ofList]
  intro hmem
  obtain ⟨byte, hbyte, hnumber⟩ := Text.exists_of_mem_decodeLossy hmem (by decide)
  exact h (UInt8.toNat_inj.mp (hnumber.trans rfl : byte.toNat = escapeByte.toNat) ▸ hbyte)

/-- Neither the path of a file nor a text in it holds an escape. -/
def Call.Quiet (call : Call) : Prop :=
  ∀ file, call = .file file → escapeByte ∉ file.path.bytes ∧
    ∀ comment ∈ file.comments, escape ∉ comment.text.toList

theorem Call.Quiet.spans {call : Call} (h : call.Quiet) (tally : Tally) :
    Report.Quiet (tally.call call).2 := by
  cases call with
  | file file =>
      obtain ⟨hpath, hcomments⟩ := h file rfl
      exact quiet_fileRecords (escape_not_mem_display hpath) hcomments
  | summary => exact quiet_summary tally
  | flush => exact fun span hspan => absurd hspan List.not_mem_nil

theorem quiet_callSpans {calls : List Call} (h : ∀ call ∈ calls, call.Quiet) (tally : Tally) :
    Quiet (callSpans tally calls) := by
  induction calls generalizing tally with
  | nil => exact fun span hspan => absurd hspan List.not_mem_nil
  | cons call calls ih =>
      obtain ⟨hcall, hcalls⟩ := List.forall_mem_cons.mp h
      exact List.forall_mem_append.mpr ⟨hcall.spans tally, ih hcalls _⟩

/-- Colours never change content. Whatever is asked of a report and whatever paths and
texts are in it, removing the sequences that switch colours leaves the same with
colours as without; and where no path or text holds an escape, it leaves what is
written without colours. -/
theorem uncolour_render_callSpans (calls : List Call) :
    uncolour (render true (callSpans .zero calls)) =
        uncolour (render false (callSpans .zero calls)) ∧
      ((∀ call ∈ calls, call.Quiet) →
        uncolour (render true (callSpans .zero calls)) = render false (callSpans .zero calls)) := by
  have hfenced := fenced_callSpans .zero calls
  refine ⟨?_, ?_⟩
  · rw [uncolour, uncolour, uncoloured_render true hfenced, uncoloured_render false hfenced]
  · intro hcalls
    rw [uncolour, uncoloured_render_of_quiet hfenced (quiet_callSpans hcalls .zero),
      String.ofList_toList]

/-- The path ends in the start of a sequence, and the text starts with the end of
one. -/
example : render true (callSpans .zero [.file ⟨.ofString "\x1b[3", .c, [.single "5m\x1b[0m" 1]⟩]) =
      "\x1b[0m\x1b[35m\x1b[3\x1b[0m:\x1b[0m\x1b[32m1\x1b[0m: 5m\x1b[0m\n" ∧
    uncolour "\x1b[0m\x1b[35m\x1b[3\x1b[0m:\x1b[0m\x1b[32m1\x1b[0m: 5m\x1b[0m\n" =
      "\x1b[3:1: 5m\n" := by
  decide +kernel

theorem uncolour_render_callSpans_sample :
    (∀ call ∈ [Call.summary, .file ⟨.ofString "é.c", .c, [.block " a\nb" 1]⟩, .flush, .summary],
      call.Quiet) ∧
    uncolour (render true (callSpans .zero
        [.summary, .file ⟨.ofString "é.c", .c, [.block " a\nb" 1]⟩, .flush, .summary])) =
      "\n0 comments in 0 files\né.c:1-2:\n     a\n    b\n\n1 comment in 1 file\n" := by
  have hquiet : ∀ call ∈ [Call.summary, .file ⟨.ofString "é.c", .c, [.block " a\nb" 1]⟩, .flush,
      .summary], call.Quiet := by
    rintro call hcall file rfl
    simp only [List.mem_cons, Call.file.injEq, reduceCtorEq, List.not_mem_nil, or_false,
      false_or] at hcall
    subst hcall
    exact ⟨by decide +kernel, by decide +kernel⟩
  refine ⟨hquiet, ((uncolour_render_callSpans _).2 hquiet).trans ?_⟩
  decide +kernel

end Marginalia.Report
