import Mathlib
import Marginalia.FileSize

/-! # Upper case and what it leaves alone

The characters that a size is made of are the upper-case form of themselves and of
ASCII letters, and of no other character: no expansion and no run of the case
mappings leads to one of them. A text whose upper-case form consists of them is
therefore changed letter by letter, within ASCII.
-/

namespace Marginalia.Text

/-- White space, a digit, the plus sign, or a letter of a unit. -/
def IsSizeChar (c : Char) : Prop :=
  isWhite c = true ∨ c.isDigit = true ∨ c ∈ ['+', 'B', 'G', 'K', 'M']

/-- The code points of these characters. -/
def sizePoints : List Nat :=
  [0x2B, 0x42, 0x47, 0x4B, 0x4D, 0x20, 0x85, 0xA0, 0x1680, 0x2028, 0x2029, 0x202F, 0x205F, 0x3000]
    ++ List.range' 0x30 10 ++ List.range' 0x09 5 ++ List.range' 0x2000 11

theorem toNat_of_isDigit {c : Char} (h : c.isDigit = true) : 48 ≤ c.toNat ∧ c.toNat ≤ 57 := by
  simpa [Char.isDigit, UInt32.le_iff_toNat_le] using h

theorem toNat_mem_sizePoints {c : Char} (h : IsSizeChar c) : c.toNat ∈ sizePoints := by
  simp only [sizePoints, List.mem_append, List.mem_cons, List.not_mem_nil, or_false,
    List.mem_range'_1]
  rcases h with hwhite | hdigit | hsign
  · simp only [isWhite, Bool.or_eq_true, Bool.and_eq_true, decide_eq_true_eq, beq_iff_eq] at hwhite
    omega
  · have hrange := toNat_of_isDigit hdigit
    omega
  · simp only [List.mem_cons, List.not_mem_nil, or_false] at hsign
    rcases hsign with rfl | rfl | rfl | rfl | rfl <;> decide

/-! ## The tables -/

theorem upperExpansions_apart : ∀ entry ∈ upperExpansions,
    entry.2 ≠ [] ∧ entry.1 ∉ sizePoints ∧ ∀ point ∈ entry.2, point ∉ sizePoints := by
  decide +kernel

/-- A run of characters beyond ASCII neither holds one of the points nor leads to
one. -/
theorem upperRuns_apart : ∀ run ∈ upperRuns, run.last < 0x80 ∨ ∀ point ∈ sizePoints,
    (point < run.first ∨ run.last < point) ∧
      ((point : Int) < run.first + run.distance ∨ run.last + run.distance < point) := by
  decide +kernel

theorem image?_not_mem_sizePoints {run : CaseRun} (hrun : run ∈ upperRuns) {point image : Nat}
    (hpoint : 0x80 ≤ point) (h : run.image? point = some image) :
    point ∉ sizePoints ∧ image ∉ sizePoints := by
  unfold CaseRun.image? at h
  split at h
  next hmaps =>
    obtain rfl := Option.some.inj h
    simp only [CaseRun.maps, Bool.and_eq_true, decide_eq_true_eq] at hmaps
    obtain ⟨⟨hfirst, hlast⟩, -⟩ := hmaps
    rcases upperRuns_apart run hrun with hascii | hapart
    · omega
    · refine ⟨fun hmem => ?_, fun hmem => ?_⟩
      · have hown := (hapart _ hmem).1
        omega
      · have himage := (hapart _ hmem).2
        -- the image is cut off at zero, and zero is none of the points
        have hzero : ((point : Int) + run.distance).toNat ≠ 0 := by
          intro hzero
          rw [hzero] at hmem
          exact absurd hmem (by decide)
        omega
  next => exact absurd h (Option.some_ne_none _).symm

theorem ofNat_mem_sizePoints {point : Nat} (h : (Char.ofNat point).toNat ∈ sizePoints) :
    point ∈ sizePoints := by
  by_cases hvalid : point.isValidChar
  · rwa [Char.toNat_ofNat, if_pos hvalid] at h
  · rw [Char.toNat_ofNat, if_neg hvalid] at h
    exact absurd h (by decide)

/-! ## One character -/

theorem toUpper_of_le {c : Char} (h : 0x80 ≤ c.toNat) : c.toUpper = c := by
  unfold Char.toUpper
  rw [dif_neg]
  rintro ⟨-, hlast⟩
  have hbound : c.toNat ≤ 122 := UInt32.le_iff_toNat_le.mp hlast
  omega

/-- A character that the tables do not map beyond ASCII stays. -/
theorem upperChar_cases {c : Char} (h : 0x80 ≤ c.toNat) :
    (upperChar c = [c]) ∨
      c.toNat ∉ sizePoints ∧ upperChar c ≠ [] ∧ ∀ x ∈ upperChar c, ¬ IsSizeChar x := by
  unfold upperChar
  rw [if_neg (Nat.not_lt.mpr h)]
  cases hlookup : upperExpansions.lookup c.toNat with
  | some points =>
      obtain ⟨front, back, htable, -⟩ := List.lookup_eq_some_iff.mp hlookup
      have hentry : (c.toNat, points) ∈ upperExpansions :=
        htable ▸ List.mem_append_right front List.mem_cons_self
      obtain ⟨hne, hown, hpoints⟩ := upperExpansions_apart _ hentry
      refine .inr ⟨hown, List.map_eq_nil_iff.not.mpr hne, ?_⟩
      intro x hx hsize
      obtain ⟨point, hpoint, rfl⟩ := List.mem_map.mp hx
      exact hpoints point hpoint (ofNat_mem_sizePoints (toNat_mem_sizePoints hsize))
  | none =>
      cases himage : upperRuns.findSome? (·.image? c.toNat) with
      | none => exact .inl (by rw [Option.getD_none, Char.ofNat_toNat])
      | some image =>
          obtain ⟨run, hrun, hrunImage⟩ := List.exists_of_findSome?_eq_some himage
          obtain ⟨hown, hnot⟩ := image?_not_mem_sizePoints hrun h hrunImage
          refine .inr ⟨hown, List.cons_ne_nil _ _, ?_⟩
          intro x hx hsize
          obtain rfl := List.mem_singleton.mp hx
          exact hnot (ofNat_mem_sizePoints (toNat_mem_sizePoints hsize))

theorem upperChar_ne_nil (c : Char) : upperChar c ≠ [] := by
  by_cases hascii : c.toNat < 0x80
  · rw [upperChar, if_pos hascii]
    exact List.cons_ne_nil _ _
  · rcases upperChar_cases (Nat.not_lt.mp hascii) with hstays | ⟨-, hne, -⟩
    · rw [hstays]
      exact List.cons_ne_nil _ _
    · exact hne

/-- Where a character of a size results, nothing else does, and it comes from itself
or from its lower-case letter. -/
theorem upperChar_of_mem {c x : Char} (hx : x ∈ upperChar c) (hsize : IsSizeChar x) :
    upperChar c = [c.toUpper] := by
  by_cases hascii : c.toNat < 0x80
  · rw [upperChar, if_pos hascii]
  · have hwide := Nat.not_lt.mp hascii
    rcases upperChar_cases hwide with hstays | ⟨-, -, hnone⟩
    · rw [hstays, toUpper_of_le hwide]
    · exact absurd hsize (hnone x hx)

theorem upperChar_of_isSizeChar {c : Char} (h : IsSizeChar c.toUpper) :
    upperChar c = [c.toUpper] := by
  by_cases hascii : c.toNat < 0x80
  · rw [upperChar, if_pos hascii]
  · have hwide := Nat.not_lt.mp hascii
    rw [toUpper_of_le hwide] at h ⊢
    rcases upperChar_cases hwide with hstays | ⟨hnot, -, -⟩
    · exact hstays
    · exact absurd (toNat_mem_sizePoints h) hnot

/-! ## Whole texts -/

theorem upper_append (text more : List Char) : upper (text ++ more) = upper text ++ upper more :=
  List.flatMap_append

theorem upper_eq_map {text : List Char} (h : ∀ c ∈ text, IsSizeChar c.toUpper) :
    upper text = text.map Char.toUpper := by
  rw [upper, ← List.flatMap_pure_eq_map]
  exact List.flatMap_congr fun c hc => upperChar_of_isSizeChar (h c hc)

/-- A text whose upper-case form consists of characters of a size is changed letter by
letter. -/
theorem upper_eq_map_of_upper {text : List Char} (h : ∀ x ∈ upper text, IsSizeChar x) :
    upper text = text.map Char.toUpper := by
  rw [upper, ← List.flatMap_pure_eq_map]
  refine List.flatMap_congr fun c hc => ?_
  obtain ⟨x, rest, hx⟩ := List.exists_cons_of_ne_nil (upperChar_ne_nil c)
  have hmem : x ∈ upperChar c := hx ▸ List.mem_cons_self
  exact upperChar_of_mem hmem (h x (List.mem_flatMap.mpr ⟨c, hc, hmem⟩))

/-- A character that becomes no upper-case letter was no letter, and stays. -/
theorem toUpper_eq_of_not_isUpper {c : Char} (h : c.toUpper.isUpper = false) : c.toUpper = c := by
  rw [Char.isUpper_toUpper_eq_isAlpha, Char.isAlpha, Bool.or_eq_false_iff] at h
  exact Char.toUpper_eq_of_not_isLower (Bool.eq_false_iff.mp h.2)

end Marginalia.Text
