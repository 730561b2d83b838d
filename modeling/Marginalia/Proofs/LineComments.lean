import Marginalia.Proofs.Tokens

/-! # Where line comments end

A line comment is a run of markers and the rest of the line, which ends before
a newline or with the text. One carriage return at its end is not part of what
the comment says.
-/

namespace Marginalia.LineRule

/-- The marker counts after the given character: at the start of the text, after
white space or a word break, or anywhere if it need not start a word. -/
def CountsAfter (rule : LineRule) (before : Option Char) : Prop :=
  rule.wordStart = true →
    ∀ c, before = some c → Text.isWhite c = true ∨ c ∈ wordBreaks

theorem admits_iff {rule : LineRule} {before : Option Char} :
    rule.admits before = true ↔ rule.CountsAfter before := by
  unfold admits CountsAfter
  cases rule.wordStart <;> cases before <;> simp

/-- What a line comment ends with, besides the text it keeps. -/
def ending (carriage : Bool) : List Char :=
  if carriage then ['\r'] else []

/-- The comment has all markers that stand at its start and reaches to the end
of the line. -/
structure Spans (rule : LineRule) (markers : Nat) (text : List Char) (carriage : Bool)
    (after : List Char) : Prop where
  marked : 1 ≤ markers
  single : rule.repeatable = false → markers = 1
  whole : rule.repeatable = true → ¬ rule.marker.chars <+: text ++ ending carriage ++ after
  oneLine : '\n' ∉ text
  stops : ∀ c rest, after = c :: rest → c = '\n'
  trimmed : carriage = false → text.getLast? ≠ some '\r'

theorem openingRun_eq_iff {rule : LineRule} {text body : List Char} {markers : Nat} :
    rule.openingRun text = (markers, body) ↔
      ∃ more, markers = more + 1 ∧
        text = (List.replicate more rule.marker.chars).flatten ++ body ∧
        (rule.repeatable = false → more = 0) ∧
        (rule.repeatable = true → ¬ rule.marker.chars <+: body) := by
  unfold openingRun
  split
  next hrepeat =>
    rw [Token.stripRun_eq_iff]
    constructor
    · rintro ⟨more, rfl, htext, hend⟩
      refine ⟨more, Nat.add_comm _ _, htext, ?_, fun _ => hend⟩
      intro hsingle
      exact absurd (hrepeat.symm.trans hsingle) Bool.noConfusion
    · rintro ⟨more, rfl, htext, -, hend⟩
      exact ⟨more, Nat.add_comm _ _, htext, hend hrepeat⟩
  next hrepeat =>
    constructor
    · intro h
      obtain ⟨rfl, rfl⟩ := Prod.mk.inj h
      exact ⟨0, rfl, rfl, fun _ => rfl, fun h => absurd h hrepeat⟩
    · rintro ⟨more, rfl, rfl, hsingle, -⟩
      rw [hsingle (Bool.eq_false_iff.mpr hrepeat)]
      rfl

/-- A text without newline, followed by a newline or by nothing, is the rest of
its line. -/
theorem takeWhile_line {line after : List Char} (hline : '\n' ∉ line)
    (hstops : ∀ c rest, after = c :: rest → c = '\n') :
    (line ++ after).takeWhile (· ≠ '\n') = line ∧
      (line ++ after).dropWhile (· ≠ '\n') = after := by
  have hall : ∀ c ∈ line, decide (c ≠ '\n') = true := by
    intro c hc
    rw [decide_eq_true_eq]
    rintro rfl
    exact hline hc
  rw [List.takeWhile_append_of_pos hall, List.dropWhile_append_of_pos hall]
  cases after with
  | nil => exact ⟨List.append_nil _, rfl⟩
  | cons c rest =>
      obtain rfl := hstops c rest rfl
      exact ⟨List.append_nil _, rfl⟩

/-- The text of a comment with its markers and what it ends with. -/
theorem source_line (rule : LineRule) (more : Nat) (text : List Char) (carriage : Bool) :
    (Segment.line rule (more + 1) text carriage).source =
      rule.marker.chars ++
        ((List.replicate more rule.marker.chars).flatten ++ (text ++ ending carriage)) := by
  rw [Segment.source, List.replicate_succ, List.flatten_cons, ending, List.append_assoc,
    List.append_assoc]

theorem newline_not_mem_markers {rule : LineRule} (h : '\n' ∉ rule.marker.chars) (markers : Nat) :
    '\n' ∉ (List.replicate markers rule.marker.chars).flatten := by
  intro hmem
  obtain ⟨marker, hmarker, hnewline⟩ := List.mem_flatten.mp hmem
  rw [List.eq_of_mem_replicate hmarker] at hnewline
  exact h hnewline

/-- A line comment is read to the end of its line. -/
theorem read_eq_of_spans {rule : LineRule} {markers : Nat} {text : List Char} {carriage : Bool}
    {body after : List Char} (h : rule.Spans markers text carriage after)
    (hbody : rule.marker.chars ++ body =
      (Segment.line rule markers text carriage).source ++ after) :
    rule.read body = (.line rule markers text carriage, after) := by
  obtain ⟨more, rfl⟩ := Nat.exists_eq_add_of_le' h.marked
  rw [source_line, List.append_assoc, List.append_assoc] at hbody
  obtain rfl := List.append_cancel_left hbody
  have hrun : rule.openingRun ((List.replicate more rule.marker.chars).flatten ++
      (text ++ ending carriage ++ after)) = (more + 1, text ++ ending carriage ++ after) :=
    openingRun_eq_iff.mpr ⟨more, rfl, rfl, fun hsingle => Nat.succ.inj (h.single hsingle), h.whole⟩
  have hline : '\n' ∉ text ++ ending carriage := by
    rw [List.mem_append, not_or]
    refine ⟨h.oneLine, ?_⟩
    cases carriage <;> decide
  obtain ⟨htake, hdrop⟩ := takeWhile_line hline h.stops
  unfold read
  simp only [hrun, htake, hdrop]
  cases carriage with
  | true => simp [ending]
  | false => simp [ending, h.trimmed rfl]

theorem exists_line_end (text : List Char) :
    ∃ kept carriage after, text = kept ++ ending carriage ++ after ∧ '\n' ∉ kept ∧
      (∀ c rest, after = c :: rest → c = '\n') ∧
      (carriage = false → kept.getLast? ≠ some '\r') := by
  have hsplit : text.takeWhile (· ≠ '\n') ++ text.dropWhile (· ≠ '\n') = text :=
    List.takeWhile_append_dropWhile
  have hline : '\n' ∉ text.takeWhile (· ≠ '\n') := by
    intro hmem
    simpa using List.all_eq_true.mp List.all_takeWhile _ hmem
  have hstops : ∀ c rest, text.dropWhile (· ≠ '\n') = c :: rest → c = '\n' := by
    intro c rest hdrop
    have hhead := List.head?_dropWhile_not (· ≠ '\n') text
    rw [hdrop] at hhead
    simpa using hhead
  by_cases hcarriage : (text.takeWhile (· ≠ '\n')).getLast? = some '\r'
  · obtain ⟨kept, hkept⟩ := List.getLast?_eq_some_iff.mp hcarriage
    refine ⟨kept, true, text.dropWhile (· ≠ '\n'), ?_, ?_, hstops, nofun⟩
    · rw [ending, if_pos rfl, ← hkept, hsplit]
    · intro hmem
      exact hline (hkept ▸ List.mem_append_left _ hmem)
  · refine ⟨text.takeWhile (· ≠ '\n'), false, text.dropWhile (· ≠ '\n'), ?_, hline, hstops,
      fun _ => hcarriage⟩
    rw [ending, if_neg Bool.noConfusion, List.append_nil, hsplit]

/-- Reading a line comment keeps every character and stops at the end of the
line. -/
theorem exists_spans (rule : LineRule) (body : List Char) :
    ∃ markers text carriage after,
      rule.marker.chars ++ body = (Segment.line rule markers text carriage).source ++ after ∧
        rule.Spans markers text carriage after := by
  obtain ⟨more, hmarkers, hbody, hsingle, hwhole⟩ :=
    openingRun_eq_iff.mp (Prod.eta (rule.openingRun body)).symm
  obtain ⟨kept, carriage, after, htail, hline, hstops, htrimmed⟩ :=
    exists_line_end (rule.openingRun body).2
  refine ⟨more + 1, kept, carriage, after, ?_, Nat.succ_pos _, ?_, ?_, hline, hstops, htrimmed⟩
  · rw [source_line, List.append_assoc, List.append_assoc, ← htail, ← hbody]
  · intro hrepeat
    rw [hsingle hrepeat]
  · rw [← htail]
    exact hwhole

end Marginalia.LineRule
