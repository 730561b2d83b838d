import Mathlib
import Marginalia.Proofs.LineEndings
import Marginalia.Proofs.ReadingBack
import Marginalia.Proofs.Reports

/-! # Reading records back

A text report consists of lines. The header of a record starts with the path, and
what stands below a header is empty or indented, so the headers can be told from
the rest whatever the comments say. Two lists of comments with the same report
therefore agree record by record.
-/

namespace Marginalia

namespace Text

theorem trimStart_subset (text : List Char) : trimStart text ⊆ text :=
  (List.dropWhile_sublist _).subset

theorem trimEnd_subset (text : List Char) : trimEnd text ⊆ text := by
  intro c hc
  rw [trimEnd, List.mem_reverse] at hc
  exact List.mem_reverse.mp ((List.dropWhile_sublist _).subset hc)

theorem trim_subset (text : List Char) : trim text ⊆ text :=
  fun _ hc => trimStart_subset text (trimEnd_subset _ hc)

/-- A trimmed line has no newline in it. -/
theorem newline_not_mem_trimEnd_of_mem_lines {text line : List Char} (h : line ∈ lines text) :
    '\n' ∉ trimEnd line := by
  obtain ⟨piece, hpiece, rfl⟩ := List.mem_map.mp h
  obtain ⟨kept, hkept, rfl | rfl⟩ := exists_line_of_mem_pieces hpiece
  · rw [trimEnd_dropLineEnd]
    exact fun hmem => hkept (trimEnd_subset _ hmem)
  · rw [trimEnd_dropLineEnd, trimEnd_concat rfl]
    exact fun hmem => hkept (trimEnd_subset _ hmem)

end Text

namespace Comment

/-- A comment ends on a later line exactly if its text has a newline in it. -/
theorem line_lt_endLine_iff {comment : Comment} :
    comment.line < comment.endLine ↔ '\n' ∈ comment.text.toList := by
  rw [endLine, ← List.count_pos_iff]
  omega

/-- What a record shows of two comments is the same: their lines, whether they go
over several, and the text as far as it is trimmed for the report. -/
structure Alike (comment other : Comment) : Prop where
  line : comment.line = other.line
  endLine : comment.endLine = other.endLine
  newline : '\n' ∈ comment.text.toList ↔ '\n' ∈ other.text.toList
  /-- A text on one line is trimmed on both sides. -/
  trimmed : '\n' ∉ comment.text.toList →
    Text.trim comment.text.toList = Text.trim other.text.toList
  /-- Of a text on several lines, each line is trimmed at its end. -/
  lines : '\n' ∈ comment.text.toList →
    (Text.lines comment.text.toList).map Text.trimEnd =
      (Text.lines other.text.toList).map Text.trimEnd

end Comment

/-! ## Headers and what stands below them -/

namespace Report

/-- A line of a comment as it stands below the header, without its newline. -/
def indented (trimmed : List Char) : List Char :=
  if trimmed = [] then [] else "    ".toList ++ trimmed

theorem toList_bodyLine (line : List Char) :
    (bodyLine line).toList = indented (Text.trimEnd line) ++ ['\n'] := by
  unfold bodyLine indented
  cases Text.trimEnd line with
  | nil => rfl
  | cons c rest => simp

theorem indented_injective : Function.Injective indented := by
  intro line other h
  unfold indented at h
  split at h
  next hline =>
    split at h
    next hother => rw [hline, hother]
    next hother => exact absurd h.symm (List.append_ne_nil_of_left_ne_nil (by decide) _)
  next hline =>
    split at h
    next hother => exact absurd h (List.append_ne_nil_of_left_ne_nil (by decide) _)
    next hother => exact List.append_cancel_left h

/-- The first line of a record. -/
def header (path : String) (comment : Comment) : List Char :=
  path.toList ++ ':' :: ((lineRange comment).toList ++ ':' ::
    if '\n' ∈ comment.text.toList then [] else ' ' :: Text.trim comment.text.toList)

/-- The lines of a record below the first. -/
def below (comment : Comment) : List (List Char) :=
  if '\n' ∈ comment.text.toList then
    ((Text.lines comment.text.toList).map Text.trimEnd).map indented
  else []

theorem toList_body (comment : Comment) :
    (body comment).toList =
      if '\n' ∈ comment.text.toList then '\n' :: Text.unlines (below comment)
      else ' ' :: (Text.trim comment.text.toList ++ ['\n']) := by
  unfold body below
  by_cases hnewline : '\n' ∈ comment.text.toList
  · simp [hnewline, Text.unlines, String.toList_join, List.flatMap_map, toList_bodyLine]
  · simp [hnewline]

/-- A record is written as its lines. -/
theorem toList_render_commentRecord (path : String) (comment : Comment) :
    (render false (commentRecord path comment)).toList =
      Text.unlines (header path comment :: below comment) := by
  have hrecord : (render false (commentRecord path comment)).toList =
      path.toList ++ ':' :: ((lineRange comment).toList ++ ':' :: (body comment).toList) := by
    simp [render, commentRecord, location, Span.render, Span.coloured, Span.plain, String.join]
  rw [hrecord, toList_body, Text.unlines_cons, header]
  by_cases hnewline : '\n' ∈ comment.text.toList
  · simp [hnewline]
  · simp [hnewline, below, Text.unlines]

theorem toList_render_fileRecords (file : CommentedFile) :
    (render false (fileRecords file)).toList =
      Text.unlines (file.comments.flatMap fun comment =>
        header file.path.display comment :: below comment) := by
  rw [fileRecords]
  induction file.comments with
  | nil => rfl
  | cons comment comments ih =>
      rw [List.flatMap_cons, render_append, String.toList_append, ih, toList_render_commentRecord,
        List.flatMap_cons, Text.unlines_append]

/-! ## Telling headers from the rest -/

/-- The line is neither empty nor indented as what stands below a header is. -/
def Flush (line : List Char) : Prop :=
  line ≠ [] ∧ ¬ "    ".toList <+: line

theorem not_flush_indented (trimmed : List Char) : ¬ Flush (indented trimmed) := by
  rintro ⟨hne, hindent⟩
  unfold indented at hne hindent
  split at hne
  next hempty => exact hne rfl
  next hfull =>
    rw [if_neg hfull] at hindent
    exact hindent (List.prefix_append _ _)

theorem not_flush_of_mem_below {comment : Comment} {line : List Char} (h : line ∈ below comment) :
    ¬ Flush line := by
  unfold below at h
  split at h
  · obtain ⟨trimmed, -, rfl⟩ := List.mem_map.mp h
    exact not_flush_indented trimmed
  · exact absurd h List.not_mem_nil

/-- The colon after the path is no blank, so a header is indented only if the path
is. -/
theorem flush_header {path : String} (h : ¬ "    ".toList <+: path.toList) (comment : Comment) :
    Flush (header path comment) := by
  refine ⟨List.append_ne_nil_of_right_ne_nil _ (List.cons_ne_nil _ _), ?_⟩
  intro hindent
  have hshort := (List.prefix_or_prefix_of_prefix hindent (List.prefix_append _ _)).resolve_left h
  obtain ⟨tail, htail⟩ := hshort
  cases tail with
  | nil => exact h ⟨[], by rw [← htail, List.append_assoc, List.append_nil, List.append_nil]⟩
  | cons c tail =>
      have hblank : c = ' ' := by
        have hmem : c ∈ "    ".toList := htail ▸ List.mem_append_right _ List.mem_cons_self
        simpa using hmem
      rw [← htail, header, List.prefix_append_right_inj] at hindent
      have hcolon := (List.cons_prefix_cons.mp hindent).1
      exact absurd (hblank.symm.trans hcolon) (by decide)

theorem newline_not_mem_below {comment : Comment} {line : List Char} (h : line ∈ below comment) :
    '\n' ∉ line := by
  unfold below at h
  split at h
  next =>
    obtain ⟨trimmed, hmem, rfl⟩ := List.mem_map.mp h
    obtain ⟨kept, hkept, rfl⟩ := List.mem_map.mp hmem
    have hline := Text.newline_not_mem_trimEnd_of_mem_lines hkept
    unfold indented
    split
    · exact List.not_mem_nil
    · simp [hline]
  next => exact absurd h List.not_mem_nil

theorem digit_or_dash_of_mem_lineRange {comment : Comment} {c : Char}
    (h : c ∈ (lineRange comment).toList) : c.isDigit = true ∨ c = '-' := by
  unfold lineRange at h
  split at h
  · simp only [String.toList_append, List.mem_append] at h
    rcases h with (hline | hdash) | hend
    · exact .inl (Text.isDigit_of_mem_toString hline)
    · exact .inr (List.mem_singleton.mp hdash)
    · exact .inl (Text.isDigit_of_mem_toString hend)
  · exact .inl (Text.isDigit_of_mem_toString h)

theorem newline_not_mem_header {path : String} (h : '\n' ∉ path.toList) (comment : Comment) :
    '\n' ∉ header path comment := by
  have hrange : '\n' ∉ (lineRange comment).toList := by
    intro hmem
    exact absurd (digit_or_dash_of_mem_lineRange hmem) (by decide)
  unfold header
  split
  next => simp [h, hrange]
  next hline =>
    have htrim : '\n' ∉ Text.trim comment.text.toList := fun hmem => hline (Text.trim_subset _ hmem)
    simp [h, hrange, htrim]

/-! ## What a record tells -/

/-- The range of lines tells the first and the last line. -/
theorem lineRange_inj {comment other : Comment} (h : lineRange comment = lineRange other) :
    comment.line = other.line ∧ comment.endLine = other.endLine := by
  have hdash (n : Nat) : '-' ∉ (ToString.toString n).toList := fun hmem =>
    absurd (Text.isDigit_of_mem_toString hmem) (by decide)
  have hnumber {n m : Nat} (hlist : (ToString.toString n).toList = (ToString.toString m).toList) :
      n = m :=
    Nat.repr_injective (String.toList_inj.mp hlist)
  have hlists := congrArg String.toList h
  unfold lineRange at hlists
  split at hlists
  next hrange =>
    split at hlists
    next hrange' =>
      simp only [String.toList_append, List.append_assoc] at hlists
      obtain ⟨hline, hend⟩ := Text.until_inj (hdash _) (hdash _) hlists
      exact ⟨hnumber hline, hnumber hend⟩
    next hsingle' =>
      refine absurd ?_ (hdash other.line)
      rw [← hlists]
      simp
  next hsingle =>
    split at hlists
    next hrange' =>
      refine absurd ?_ (hdash comment.line)
      rw [hlists]
      simp
    next hsingle' =>
      have hline := hnumber hlists
      have hfirst := comment.line_le_endLine
      have hfirst' := other.line_le_endLine
      exact ⟨hline, by omega⟩

/-- Two records with the same lines are records of comments that are alike. -/
theorem alike_of_header_eq {path : String} {comment other : Comment}
    (hheader : header path comment = header path other) (hbelow : below comment = below other) :
    comment.Alike other := by
  have hcolon (comment : Comment) : ':' ∉ (lineRange comment).toList := fun hmem =>
    absurd (digit_or_dash_of_mem_lineRange hmem) (by decide)
  obtain ⟨hrange, hrest⟩ := Text.until_inj (hcolon comment) (hcolon other)
    (List.cons.inj (List.append_cancel_left hheader)).2
  obtain ⟨hline, hend⟩ := lineRange_inj (String.toList_inj.mp hrange)
  have hnewline : '\n' ∈ comment.text.toList ↔ '\n' ∈ other.text.toList := by
    rw [← Comment.line_lt_endLine_iff, ← Comment.line_lt_endLine_iff, hline, hend]
  refine ⟨hline, hend, hnewline, ?_, ?_⟩
  · intro hsingle
    rw [if_neg hsingle, if_neg (fun hmem => hsingle (hnewline.mpr hmem))] at hrest
    exact (List.cons.inj hrest).2
  · intro hseveral
    rw [below, below, if_pos hseveral, if_pos (hnewline.mp hseveral)] at hbelow
    exact (List.map_injective_iff.mpr indented_injective) hbelow

/-- A record shows nothing else of a comment. -/
theorem header_eq_of_alike {comment other : Comment} (h : comment.Alike other) (path : String) :
    header path comment = header path other ∧ below comment = below other := by
  have hrange : lineRange comment = lineRange other := by
    rw [lineRange, lineRange, h.line, h.endLine]
  by_cases hnewline : '\n' ∈ comment.text.toList
  · have hnewline' := h.newline.mp hnewline
    simp only [header, below, if_pos hnewline, if_pos hnewline', hrange, h.lines hnewline,
      and_self]
  · have hnewline' : '\n' ∉ other.text.toList := fun hmem => hnewline (h.newline.mpr hmem)
    simp only [header, below, if_neg hnewline, if_neg hnewline', hrange, h.trimmed hnewline,
      and_self]

/-- A text report cannot be forged by what comments say. Where a path is displayed
on one line that is not indented, two lists of comments give the same report of
the file exactly if there are as many comments in both, and they agree one by one
on the lines they stand on and on the text as it is trimmed. -/
theorem render_fileRecords_eq_iff {path : Path} (honeLine : '\n' ∉ path.display.toList)
    (hflush : ¬ "    ".toList <+: path.display.toList) (language language' : Language)
    (comments others : List Comment) :
    render false (fileRecords ⟨path, language, comments⟩) =
        render false (fileRecords ⟨path, language', others⟩) ↔
      comments.length = others.length ∧ List.Forall₂ Comment.Alike comments others := by
  rw [← String.toList_inj, toList_render_fileRecords, toList_render_fileRecords]
  have hlines (comments : List Comment) : ∀ line ∈ comments.flatMap (fun comment =>
      header path.display comment :: below comment), '\n' ∉ line := by
    intro line hline
    obtain ⟨comment, -, hmem⟩ := List.mem_flatMap.mp hline
    rcases List.mem_cons.mp hmem with rfl | hbelow
    · exact newline_not_mem_header honeLine comment
    · exact newline_not_mem_below hbelow
  constructor
  · intro hsame
    have hblocks := forall₂_of_flatMap_cons_eq (flush_header hflush)
      (fun _ _ => not_flush_of_mem_below) (Text.unlines_inj (hlines _) (hlines _) hsame)
    exact ⟨hblocks.length_eq, hblocks.imp fun _ _ hblock => alike_of_header_eq hblock.1 hblock.2⟩
  · rintro ⟨-, halike⟩
    congr 1
    induction halike with
    | nil => rfl
    | cons hfirst _ ih =>
        obtain ⟨hheader, hbelow⟩ := header_eq_of_alike hfirst path.display
        rw [List.flatMap_cons, List.flatMap_cons, hheader, hbelow, ih]

/-- The first text imitates a header and has lines of blanks; the path starts with
three blanks. -/
theorem render_fileRecords_eq_iff_imitation :
    '\n' ∉ (Path.ofString "   é").display.toList ∧
      ¬ "    ".toList <+: (Path.ofString "   é").display.toList ∧
      render false (fileRecords ⟨.ofString "   é", .c,
        [.block "x\n   é:1: y \n\n" 1, .single " z" 3]⟩) =
          "   é:1-4:\n    x\n       é:1: y\n\n   é:3: z\n" ∧
      List.Forall₂ Comment.Alike [.block "x\n   é:1: y \n\n" 1, .single " z" 3]
        [.block "x\t\r\n   é:1: y\n \n" 1, .block "z " 3] := by
  have honeLine : '\n' ∉ (Path.ofString "   é").display.toList := by decide +kernel
  have hflush : ¬ "    ".toList <+: (Path.ofString "   é").display.toList := by decide +kernel
  have hreport : render false (fileRecords ⟨.ofString "   é", .c,
      [.block "x\n   é:1: y \n\n" 1, .single " z" 3]⟩) =
        "   é:1-4:\n    x\n       é:1: y\n\n   é:3: z\n" := by
    decide +kernel
  have hreport' : render false (fileRecords ⟨.ofString "   é", .go,
      [.block "x\t\r\n   é:1: y\n \n" 1, .block "z " 3]⟩) =
        "   é:1-4:\n    x\n       é:1: y\n\n   é:3: z\n" := by
    decide +kernel
  exact ⟨honeLine, hflush, hreport,
    ((render_fileRecords_eq_iff honeLine hflush .c .go _ _).mp
      (hreport.trans hreport'.symm)).2⟩

end Report

end Marginalia
