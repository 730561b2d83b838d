import Marginalia.Proofs.Utf8

/-! # Searching the line table

The table of line ends can be read off the bytes of a text: a newline byte is
always a newline, since no longer character has it among its bytes. It increases,
so halving it tells how many newlines start below an offset, also for offsets
inside a character and past the end.
-/

namespace Marginalia

/-- A newline byte is among the bytes of no other character. -/
theorem newline_not_mem_utf8EncodeChar {c : Char} (h : c ≠ '\n') :
    10 ∉ String.utf8EncodeChar c := by
  intro hmem
  obtain ⟨front, back, hbytes⟩ := List.append_of_mem hmem
  have hstands : utf8Bytes Token.newline.toString <+:
      (utf8Bytes (String.ofList [c])).drop front.length := by
    rw [utf8Bytes_eq_flatMap (String.ofList [c]), String.toList_ofList, List.flatMap_singleton,
      hbytes, List.drop_left]
    exact ⟨back, rfl⟩
  obtain ⟨before, after, htext, -⟩ := Token.prefix_drop_utf8Bytes_iff.mp hstands
  have hnewline : '\n' ∈ [c] := by
    rw [← String.toList_ofList (l := [c]), htext]
    exact List.mem_append_right _ List.mem_cons_self
  exact h (List.mem_singleton.mp hnewline).symm

/-- The offsets of the newline bytes among some bytes, the first of which stands
at `start`. -/
def newlineBytes (start : Nat) (bytes : List UInt8) : List Nat :=
  (bytes.zipIdx start).filterMap fun (byte, offset) => if byte = 10 then some offset else none

theorem newlineBytes_append (start : Nat) (first second : List UInt8) :
    newlineBytes start (first ++ second) =
      newlineBytes start first ++ newlineBytes (start + first.length) second := by
  rw [newlineBytes, List.zipIdx_append, List.filterMap_append]
  rfl

theorem newlineBytes_utf8EncodeChar (start : Nat) (c : Char) :
    newlineBytes start (String.utf8EncodeChar c) = if c = '\n' then [start] else [] := by
  split
  next hnewline =>
    rw [hnewline]
    rfl
  next hother =>
    rw [newlineBytes, List.filterMap_eq_nil_iff]
    rintro ⟨byte, offset⟩ hmem
    have hbyte : byte ≠ 10 := by
      rintro rfl
      exact newline_not_mem_utf8EncodeChar hother (List.fst_mem_of_mem_zipIdx hmem)
    exact if_neg hbyte

/-- The number of newlines of a text that start below a byte offset. -/
def newlinesBelow (text : List Char) (offset : Nat) : Nat :=
  (List.range text.length).countP fun place =>
    text[place]? = some '\n' ∧ utf8Length (text.take place) < offset

namespace LineTable

theorem lineEnds_eq_newlineBytes (start : Nat) (text : List Char) :
    lineEnds start text =
      newlineBytes start (text.flatMap String.utf8EncodeChar) ++ [start + utf8Length text] := by
  induction text generalizing start with
  | nil => rfl
  | cons c rest ih =>
      rw [lineEnds, ih, List.flatMap_cons, newlineBytes_append, newlineBytes_utf8EncodeChar,
        String.length_utf8EncodeChar, utf8Length_cons, Nat.add_assoc]
      split
      · rfl
      · rfl

/-- The line ends below a bound are the newlines that start below it, and the end of
the text if that is below it too. -/
theorem countP_lineEnds (start bound : Nat) (text : List Char) :
    (lineEnds start text).countP (· < bound) =
      ((List.range text.length).countP fun place =>
        text[place]? = some '\n' ∧ start + utf8Length (text.take place) < bound) +
      if start + utf8Length text < bound then 1 else 0 := by
  induction text generalizing start with
  | nil => by_cases hend : start < bound <;> simp [lineEnds, hend]
  | cons c rest ih =>
      have hlater : (fun place => decide ((c :: rest)[place]? = some '\n' ∧
            start + utf8Length ((c :: rest).take place) < bound)) ∘ Nat.succ =
          fun place => decide (rest[place]? = some '\n' ∧
            start + c.utf8Size + utf8Length (rest.take place) < bound) := by
        funext place
        simp only [Function.comp_apply, List.getElem?_cons_succ, List.take_succ_cons,
          utf8Length_cons, Nat.add_assoc]
      rw [List.length_cons, List.range_succ_eq_map, List.countP_cons, List.countP_map, hlater,
        utf8Length_cons, ← Nat.add_assoc, lineEnds]
      by_cases hnewline : c = '\n'
      · rw [if_pos hnewline, List.countP_cons, ih]
        simp [hnewline, Nat.add_right_comm]
      · rw [if_neg hnewline, ih]
        simp [hnewline]

/-- Binary search in the line table counts newlines. The table holds the offsets of
the newline bytes and the length of the text, in increasing order. The line found
for an offset is one more than the number of newlines that start below it, and yet
one more exactly if the offset is past the end. -/
theorem lineAt_counts_newlines (code : String) :
    (ofText code.toList).ends.toList = newlineBytes 0 (utf8Bytes code) ++ [code.utf8ByteSize] ∧
    (ofText code.toList).ends.toList.Pairwise (· < ·) ∧
    ∀ offset, (ofText code.toList).lineAt offset =
      1 + newlinesBelow code.toList offset + if code.utf8ByteSize < offset then 1 else 0 := by
  rw [toList_ends]
  refine ⟨?_, pairwise_lineEnds 0 code.toList, ?_⟩
  · rw [lineEnds_eq_newlineBytes, utf8Bytes_eq_flatMap, Nat.zero_add, utf8Length_toList]
  · intro offset
    rw [lineAt_eq_countP, countP_lineEnds, newlinesBelow]
    simp only [Nat.zero_add, utf8Length_toList, Nat.add_assoc]

end LineTable

end Marginalia
