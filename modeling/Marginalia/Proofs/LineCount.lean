import Marginalia.LineTable

/-! # Lines by counting

Halving finds the border of a predicate that holds on an initial part of an
interval. The table of line ends increases, so the line of an offset is one
more than the number of line ends below it, and at the end of a part of the
text one more than the number of newlines in that part.
-/

namespace Marginalia

/-- The border of a predicate stays inside the interval while it is halved. -/
theorem partitionPoint_eq_of_border {holds : Nat → Bool} {low high border : Nat}
    (hlow : low ≤ border) (hhigh : border ≤ high)
    (hborder : ∀ place, low ≤ place → place < high → (holds place = true ↔ place < border)) :
    partitionPoint holds low high = border := by
  fun_induction partitionPoint holds low high with
  | case1 low high hlt middle hmiddle ih =>
      have hbelow := (hborder middle (by omega) (by omega)).mp hmiddle
      apply ih (by omega) hhigh
      intro place hplace
      exact hborder place (by omega)
  | case2 low high hlt middle hmiddle ih =>
      have habove : ¬ middle < border :=
        fun hlt => hmiddle ((hborder middle (by omega) (by omega)).mpr hlt)
      apply ih hlow (by omega)
      intro place hplace hbound
      exact hborder place hplace (by omega)
  | case3 low high hlt => omega

/-- The entries of an increasing list that lie below a bound come first. -/
theorem getElem_lt_iff_lt_countP {entries : List Nat} (hsorted : entries.Pairwise (· < ·))
    {bound place : Nat} (hplace : place < entries.length) :
    entries[place] < bound ↔ place < entries.countP (· < bound) := by
  induction entries generalizing place with
  | nil => exact absurd hplace (Nat.not_lt_zero _)
  | cons entry rest ih =>
      obtain ⟨hfirst, hrest⟩ := List.pairwise_cons.mp hsorted
      by_cases hentry : entry < bound
      · rw [List.countP_cons_of_pos (by simpa using hentry)]
        cases place with
        | zero => exact iff_of_true hentry (Nat.succ_pos _)
        | succ place =>
            rw [List.getElem_cons_succ, ih hrest (Nat.lt_of_succ_lt_succ hplace)]
            omega
      · -- the first entry is not below the bound, so none is
        have hnone : (entry :: rest).countP (· < bound) = 0 := by
          rw [List.countP_eq_zero]
          intro other hother
          rcases List.mem_cons.mp hother with rfl | hmem
          · simpa using hentry
          · have hbelow := hfirst other hmem
            simp only [decide_eq_true_eq]
            omega
        rw [hnone]
        refine iff_of_false ?_ (Nat.not_lt_zero _)
        cases place with
        | zero => exact hentry
        | succ place =>
            have hbelow := hfirst _ (List.getElem_mem (Nat.lt_of_succ_lt_succ hplace))
            rw [List.getElem_cons_succ]
            omega

@[simp] theorem utf8Length_nil : utf8Length [] = 0 := rfl

/-- What was counted before a text is added to its length. -/
theorem foldl_utf8Size_eq (start : Nat) (text : List Char) :
    text.foldl (fun size c => size + c.utf8Size) start = start + utf8Length text := by
  unfold utf8Length
  induction text generalizing start with
  | nil => rfl
  | cons c rest ih =>
      rw [List.foldl_cons, List.foldl_cons, ih, ih (0 + c.utf8Size)]
      omega

theorem utf8Length_cons (c : Char) (rest : List Char) :
    utf8Length (c :: rest) = c.utf8Size + utf8Length rest := by
  rw [utf8Length, List.foldl_cons, foldl_utf8Size_eq, Nat.zero_add]

theorem utf8Length_append (front rest : List Char) :
    utf8Length (front ++ rest) = utf8Length front + utf8Length rest := by
  induction front with
  | nil => rw [List.nil_append, utf8Length_nil, Nat.zero_add]
  | cons c front ih =>
      rw [List.cons_append, utf8Length_cons, utf8Length_cons, ih, Nat.add_assoc]

theorem utf8ByteSize_ofList_eq (text : List Char) :
    (String.ofList text).utf8ByteSize = utf8Length text := by
  induction text with
  | nil => rfl
  | cons c rest ih =>
      rw [String.ofList_cons, String.utf8ByteSize_append, String.utf8ByteSize_singleton, ih,
        utf8Length_cons]

theorem utf8Length_toList (code : String) : utf8Length code.toList = code.utf8ByteSize := by
  rw [← utf8ByteSize_ofList_eq, String.ofList_toList]

namespace LineTable

/-- The offsets of the newlines of a text that starts at `offset`, and of its
end. -/
def lineEnds (offset : Nat) : List Char → List Nat
  | [] => [offset]
  | c :: rest =>
      if c = '\n' then offset :: lineEnds (offset + c.utf8Size) rest
      else lineEnds (offset + c.utf8Size) rest

theorem toList_endsFrom (offset : Nat) (found : Array Nat) (text : List Char) :
    (endsFrom offset found text).toList = found.toList ++ lineEnds offset text := by
  induction text generalizing offset found with
  | nil => simp [endsFrom, lineEnds]
  | cons c rest ih =>
      unfold endsFrom lineEnds
      rw [ih]
      split
      · rw [Array.toList_push, List.append_assoc, List.singleton_append]
      · rfl

theorem le_of_mem_lineEnds {offset lineEnd : Nat} {text : List Char}
    (h : lineEnd ∈ lineEnds offset text) : offset ≤ lineEnd := by
  induction text generalizing offset with
  | nil => exact Nat.le_of_eq (List.mem_singleton.mp h).symm
  | cons c rest ih =>
      unfold lineEnds at h
      split at h
      · rcases List.mem_cons.mp h with rfl | hmem
        · exact Nat.le_refl _
        · exact Nat.le_trans (Nat.le_add_right _ _) (ih hmem)
      · exact Nat.le_trans (Nat.le_add_right _ _) (ih h)

/-- The table of line ends strictly increases. -/
theorem pairwise_lineEnds (offset : Nat) (text : List Char) :
    (lineEnds offset text).Pairwise (· < ·) := by
  induction text generalizing offset with
  | nil => exact List.pairwise_singleton _ _
  | cons c rest ih =>
      unfold lineEnds
      split
      · refine List.pairwise_cons.mpr ⟨?_, ih _⟩
        intro lineEnd hmem
        have hnext := le_of_mem_lineEnds hmem
        have hsize := c.utf8Size_pos
        omega
      · exact ih _

theorem toList_ends (text : List Char) : (ofText text).ends.toList = lineEnds 0 text := by
  rw [ofText, toList_endsFrom, List.nil_append]

/-- Binary search in the table counts the line ends below an offset. -/
theorem lineAt_eq_countP (text : List Char) (offset : Nat) :
    (ofText text).lineAt offset = 1 + (lineEnds 0 text).countP (· < offset) := by
  have hsize : (ofText text).ends.size = (lineEnds 0 text).length := by
    rw [← toList_ends, Array.length_toList]
  unfold lineAt
  rw [hsize, partitionPoint_eq_of_border (Nat.zero_le _) List.countP_le_length]
  intro place _ hplace
  rw [← getElem_lt_iff_lt_countP (pairwise_lineEnds 0 text) hplace,
    ← Array.getElem?_toList, toList_ends, List.getElem?_eq_getElem hplace, Option.any_some,
    decide_eq_true_eq]

theorem countP_lineEnds_append (offset : Nat) (front rest : List Char) :
    (lineEnds offset (front ++ rest)).countP (· < offset + utf8Length front) =
      front.count '\n' := by
  induction front generalizing offset with
  | nil =>
      rw [List.nil_append, List.count_nil, List.countP_eq_zero]
      intro lineEnd hmem
      have hle := le_of_mem_lineEnds hmem
      rw [utf8Length_nil, decide_eq_true_eq]
      omega
  | cons c front ih =>
      have hshift : offset + utf8Length (c :: front) = offset + c.utf8Size + utf8Length front := by
        rw [utf8Length_cons]
        omega
      rw [List.cons_append, lineEnds, hshift]
      split
      next hnewline =>
        have hbelow := c.utf8Size_pos
        rw [List.countP_cons_of_pos (by simp only [decide_eq_true_eq]; omega), ih, hnewline,
          List.count_cons_self]
      next hother => rw [ih, List.count_cons_of_ne hother]

/-- The line of the place after a part of the text is one more than the number of
newlines in that part. -/
theorem lineAt_utf8Length (front rest : List Char) :
    (ofText (front ++ rest)).lineAt (utf8Length front) = 1 + front.count '\n' := by
  have hcount := countP_lineEnds_append 0 front rest
  rw [Nat.zero_add] at hcount
  rw [lineAt_eq_countP, hcount]

end LineTable

end Marginalia
