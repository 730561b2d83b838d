import Mathlib
import Marginalia.Proofs.Records
import Marginalia.Proofs.UpperCase

/-! # The grammar of sizes

A size is a number with an optional plus sign, white space and a unit, each of the
last two optional. The texts that are read as a size are exactly those of this
grammar whose number of bytes fits into 64 bits, and the number is exact.
-/

namespace Marginalia

/-! ## Trimming -/

namespace Text

/-- What is trimmed from a text is white. -/
theorem exists_trimEnd_append (text : List Char) :
    ∃ tail, (∀ c ∈ tail, isWhite c = true) ∧ text = trimEnd text ++ tail := by
  refine ⟨(text.reverse.takeWhile isWhite).reverse, ?_, ?_⟩
  · intro c hc
    exact List.mem_takeWhile_imp (List.mem_reverse.mp hc)
  · rw [trimEnd, ← List.reverse_append, List.takeWhile_append_dropWhile, List.reverse_reverse]

theorem exists_trim_append (text : List Char) :
    ∃ front tail, (∀ c ∈ front, isWhite c = true) ∧ (∀ c ∈ tail, isWhite c = true) ∧
      text = front ++ (trim text ++ tail) := by
  obtain ⟨tail, htail, hstart⟩ := exists_trimEnd_append (trimStart text)
  refine ⟨text.takeWhile isWhite, tail, fun c hc => List.mem_takeWhile_imp hc, htail, ?_⟩
  rw [trim, ← hstart, trimStart, List.takeWhile_append_dropWhile]

theorem trimEnd_append_white {tail : List Char} (h : ∀ c ∈ tail, isWhite c = true)
    (text : List Char) : trimEnd (text ++ tail) = trimEnd text := by
  rw [trimEnd, trimEnd, List.reverse_append, List.dropWhile_append_of_pos]
  exact fun c hc => h c (List.mem_reverse.mp hc)

/-- A trimmed text does not start with white space. -/
theorem not_isWhite_of_trim_eq_cons {text rest : List Char} {c : Char}
    (h : trim text = c :: rest) : isWhite c = false := by
  obtain ⟨tail, -, hstart⟩ := exists_trimEnd_append (trimStart text)
  rw [← trim, h, List.cons_append] at hstart
  have hhead := List.head?_dropWhile_not isWhite text
  rw [← trimStart, hstart] at hhead
  simpa using hhead

/-! ## Numbers -/

/-- The number that decimal digits write, the last one being the units. -/
def numberOf (digits : List Char) : Nat :=
  Nat.ofDigits 10 (digits.reverse.map fun c => c.toNat - '0'.toNat)

theorem decimalValue_eq (digits : List Char) : decimalValue digits = numberOf digits := by
  induction digits using List.reverseRecOn with
  | nil => rfl
  | append_singleton digits c ih =>
      rw [decimalValue, List.foldl_append, ← decimalValue, ih, numberOf, numberOf,
        List.reverse_concat, List.map_cons, Nat.ofDigits_cons, List.foldl_cons, List.foldl_nil]
      push_cast
      ring

/-- An optional plus sign. -/
def sign (plus : Bool) : List Char :=
  if plus then ['+'] else []

/-- Digits, and at least one. -/
structure IsNumber (digits : List Char) : Prop where
  nonempty : digits ≠ []
  digit : ∀ c ∈ digits, c.isDigit = true

theorem dropPlus_sign_append (plus : Bool) {digits : List Char} (h : IsNumber digits) :
    dropPlus (sign plus ++ digits) = digits := by
  cases plus with
  | true => rfl
  | false =>
      obtain ⟨c, rest, rfl⟩ := List.exists_cons_of_ne_nil h.nonempty
      have hdigit := h.digit c List.mem_cons_self
      change dropPlus (c :: rest) = c :: rest
      unfold dropPlus
      split
      next heq =>
        obtain ⟨rfl, -⟩ := List.cons.inj heq
        exact absurd hdigit (by decide)
      next => rfl

theorem exists_sign_append (text : List Char) : ∃ plus, text = sign plus ++ dropPlus text := by
  unfold dropPlus
  split
  next rest => exact ⟨true, rfl⟩
  next => exact ⟨false, rfl⟩

theorem unsigned?_eq_some_iff {text : List Char} {count : Nat} :
    unsigned? text = some count ↔
      ∃ plus digits, text = sign plus ++ digits ∧ IsNumber digits ∧ count = numberOf digits ∧
        count < unsignedLimit := by
  unfold unsigned?
  simp only [decimalValue_eq]
  constructor
  · intro h
    split at h
    next => exact absurd h (Option.some_ne_none _).symm
    next hdigits =>
      split at h
      next hfits =>
        obtain rfl := Option.some.inj h
        obtain ⟨plus, htext⟩ := exists_sign_append text
        have hnumber : dropPlus text ≠ [] ∧ ∀ c ∈ dropPlus text, c.isDigit = true := by
          simpa using hdigits
        exact ⟨plus, dropPlus text, htext, ⟨hnumber.1, hnumber.2⟩, rfl, hfits⟩
      next => exact absurd h (Option.some_ne_none _).symm
  · rintro ⟨plus, digits, rfl, hdigits, rfl, hfits⟩
    rw [dropPlus_sign_append plus hdigits, if_neg, if_pos hfits]
    simpa [hdigits.nonempty] using hdigits.digit

/-- White space, a digit or the plus sign: what a size holds in front of its unit. -/
def Caseless (c : Char) : Prop :=
  isWhite c = true ∨ c.isDigit = true ∨ c = '+'

/-- White space lies apart from the visible characters of ASCII. -/
theorem toNat_of_isWhite {c : Char} (h : isWhite c = true) :
    c.toNat ≤ 0x20 ∨ 0x85 ≤ c.toNat := by
  simp only [isWhite, Bool.or_eq_true, Bool.and_eq_true, decide_eq_true_eq, beq_iff_eq] at h
  omega

theorem Caseless.isSizeChar {c : Char} (h : Caseless c) : IsSizeChar c := by
  rcases h with hwhite | hdigit | rfl
  · exact .inl hwhite
  · exact .inr (.inl hdigit)
  · exact .inr (.inr List.mem_cons_self)

theorem Caseless.not_isAlpha {c : Char} (h : Caseless c) : c.isAlpha = false := by
  rw [Bool.eq_false_iff]
  intro halpha
  have hrange : (65 ≤ c.toNat ∧ c.toNat ≤ 90) ∨ (97 ≤ c.toNat ∧ c.toNat ≤ 122) := by
    simpa [Char.isAlpha, Char.isUpper, Char.isLower, UInt32.le_iff_toNat_le] using halpha
  rcases h with hwhite | hdigit | rfl
  · have hapart := toNat_of_isWhite hwhite
    omega
  · have hdigits := toNat_of_isDigit hdigit
    omega
  · exact absurd halpha (by decide)

theorem Caseless.toUpper_eq {c : Char} (h : Caseless c) : c.toUpper = c := by
  apply toUpper_eq_of_not_isUpper
  rw [Char.isUpper_toUpper_eq_isAlpha, h.not_isAlpha]

/-- What becomes white space, a digit or the plus sign was that already. -/
theorem Caseless.eq_of_toUpper {c : Char} (h : Caseless c.toUpper) : c.toUpper = c := by
  apply toUpper_eq_of_not_isUpper
  have halpha := h.not_isAlpha
  rw [Char.isAlpha, Bool.or_eq_false_iff] at halpha
  exact halpha.1

theorem upper_of_caseless {text : List Char} (h : ∀ c ∈ text, Caseless c) : upper text = text := by
  rw [upper_eq_map, List.map_congr_left fun c hc => (h c hc).toUpper_eq, List.map_id']
  intro c hc
  rw [(h c hc).toUpper_eq]
  exact (h c hc).isSizeChar

theorem eq_of_map_toUpper {text front : List Char} (h : text.map Char.toUpper = front)
    (hfront : ∀ c ∈ front, Caseless c) : text = front := by
  rw [← h]
  conv_lhs => rw [← List.map_id' text]
  refine List.map_congr_left fun c hc => ?_
  exact (hfront c.toUpper (h ▸ List.mem_map_of_mem hc)).eq_of_toUpper.symm

theorem caseless_sign_append {plus : Bool} {digits : List Char} (h : IsNumber digits) :
    ∀ c ∈ sign plus ++ digits, Caseless c := by
  intro c hc
  rcases List.mem_append.mp hc with hsign | hdigit
  · cases plus with
    | true => exact .inr (.inr (List.mem_singleton.mp hsign))
    | false => exact absurd hsign List.not_mem_nil
  · exact .inr (.inl (h.digit c hdigit))

theorem trimEnd_of_not_isWhite {c : Char} (h : isWhite c = false) (front : List Char) :
    trimEnd (front ++ [c]) = front ++ [c] := by
  rw [trimEnd, List.reverse_concat, List.dropWhile_cons_of_neg (Bool.eq_false_iff.mp h),
    List.reverse_cons, List.reverse_reverse]

theorem not_isWhite_of_isDigit {c : Char} (h : c.isDigit = true) : isWhite c = false := by
  rw [Bool.eq_false_iff]
  intro hwhite
  have hrange := toNat_of_isDigit h
  have hapart := toNat_of_isWhite hwhite
  omega

/-- A number is trimmed from the white space after it. -/
theorem trim_number_append {plus : Bool} {digits gap : List Char} (hdigits : IsNumber digits)
    (hgap : ∀ c ∈ gap, isWhite c = true) :
    trim (sign plus ++ digits ++ gap) = sign plus ++ digits := by
  have hstart : trimStart (sign plus ++ digits ++ gap) = sign plus ++ digits ++ gap := by
    cases plus with
    | true => rfl
    | false =>
        obtain ⟨c, rest, rfl⟩ := List.exists_cons_of_ne_nil hdigits.nonempty
        have hwhite := not_isWhite_of_isDigit (hdigits.digit c List.mem_cons_self)
        exact List.dropWhile_cons_of_neg (Bool.eq_false_iff.mp hwhite)
  rw [trim, hstart, trimEnd_append_white hgap]
  obtain ⟨front, c, rfl⟩ := List.eq_nil_or_concat' digits |>.resolve_left hdigits.nonempty
  rw [← List.append_assoc, trimEnd_of_not_isWhite]
  exact not_isWhite_of_isDigit (hdigits.digit c (List.mem_append_right _ List.mem_cons_self))

end Text

/-! ## Units -/

namespace FileSize

theorem stripEnd?_eq_some_iff {ending text number : List Char} :
    stripEnd? ending text = some number ↔ text = number ++ ending := by
  unfold stripEnd?
  constructor
  · intro h
    split at h
    next hends =>
      obtain ⟨front, rfl⟩ := List.isSuffixOf_iff_suffix.mp hends
      obtain rfl := Option.some.inj h
      rw [List.length_append, Nat.add_sub_cancel, List.take_left]
    next => exact absurd h (Option.some_ne_none _).symm
  · rintro rfl
    rw [if_pos (List.isSuffixOf_iff_suffix.mpr (List.suffix_append _ _)), List.length_append,
      Nat.add_sub_cancel, List.take_left]

/-- No ending is the end of another, so their order does not matter. -/
theorem unit_unique : ∀ unit ∈ units, ∀ other ∈ units, unit.1 <:+ other.1 → unit = other := by
  decide

theorem splitUnit_append {ending : List Char} {factor : Nat} (h : (ending, factor) ∈ units)
    (number : List Char) : splitUnit (number ++ ending) = (number, factor) := by
  unfold splitUnit
  cases hfound : units.findSome? (fun unit =>
      (stripEnd? unit.1 (number ++ ending)).map fun number => (number, unit.2)) with
  | none =>
      rw [List.findSome?_eq_none_iff] at hfound
      have hnone := hfound (ending, factor) h
      rw [Option.map_eq_none_iff, Option.eq_none_iff_forall_ne_some] at hnone
      exact absurd (stripEnd?_eq_some_iff.mpr rfl) (hnone number)
  | some found =>
      obtain ⟨unit, hunit, hsome⟩ := List.exists_of_findSome?_eq_some hfound
      obtain ⟨other, hother, rfl⟩ := Option.map_eq_some_iff.mp hsome
      have htext := stripEnd?_eq_some_iff.mp hother
      have hsame : unit = (ending, factor) := by
        rcases List.suffix_or_suffix_of_suffix (List.suffix_append other unit.1)
          (htext ▸ List.suffix_append number ending) with hshort | hlong
        · exact unit_unique unit hunit _ h hshort
        · exact (unit_unique _ h unit hunit hlong).symm
      subst hsame
      rw [Option.getD_some, List.append_cancel_right htext]

theorem splitUnit_of_not_suffix {size : List Char} (h : ∀ unit ∈ units, ¬ unit.1 <:+ size) :
    splitUnit size = (size, 1) := by
  unfold splitUnit
  rw [List.findSome?_eq_none_iff.mpr, Option.getD_none]
  intro unit hunit
  rw [Option.map_eq_none_iff, Option.eq_none_iff_forall_ne_some]
  intro number hnumber
  exact h unit hunit (stripEnd?_eq_some_iff.mp hnumber ▸ List.suffix_append number unit.1)

/-- A size is split in front of its unit, or has none. -/
theorem exists_splitUnit (size : List Char) :
    ∃ number ending factor, splitUnit size = (number, factor) ∧ size = number ++ ending ∧
      ((ending = [] ∧ factor = 1) ∨ (ending, factor) ∈ units) := by
  by_cases hends : ∃ unit ∈ units, unit.1 <:+ size
  · obtain ⟨⟨ending, factor⟩, hunit, number, rfl⟩ := hends
    exact ⟨number, ending, factor, splitUnit_append hunit number, rfl, .inr hunit⟩
  · have hnone : ∀ unit ∈ units, ¬ unit.1 <:+ size := fun unit hunit hsuffix =>
      hends ⟨unit, hunit, hsuffix⟩
    exact ⟨size, [], 1, splitUnit_of_not_suffix hnone, (List.append_nil size).symm,
      .inl ⟨rfl, rfl⟩⟩

theorem unit_chars : ∀ unit ∈ units, unit.1 ≠ [] ∧ 0 < unit.2 ∧ ∀ c ∈ unit.1,
    c ∈ ['B', 'G', 'K', 'M'] := by
  simp [units]

/-! ## The grammar -/

/-- A unit in any case of its ASCII letters and the number of bytes it stands for; single
bytes have none. -/
inductive Suffix : List Char → Nat → Prop where
  | bytes : Suffix [] 1
  | kilo {suffix : List Char}
      (spelled : suffix.map Char.toUpper = ['K'] ∨ suffix.map Char.toUpper = ['K', 'B']) :
      Suffix suffix 1024
  | mega {suffix : List Char}
      (spelled : suffix.map Char.toUpper = ['M'] ∨ suffix.map Char.toUpper = ['M', 'B']) :
      Suffix suffix (1024 ^ 2)
  | giga {suffix : List Char}
      (spelled : suffix.map Char.toUpper = ['G'] ∨ suffix.map Char.toUpper = ['G', 'B']) :
      Suffix suffix (1024 ^ 3)

/-- The text writes the number `count`, with a unit that stands for `factor` bytes. -/
inductive Written : List Char → Nat → Nat → Prop where
  | mk {plus : Bool} {digits gap suffix : List Char} {factor : Nat}
      (number : Text.IsNumber digits) (white : ∀ c ∈ gap, Text.isWhite c = true)
      (unit : Suffix suffix factor) :
      Written (Text.sign plus ++ digits ++ gap ++ suffix) (Text.numberOf digits) factor

theorem suffix_iff {suffix : List Char} {factor : Nat} :
    Suffix suffix factor ↔
      (suffix = [] ∧ factor = 1) ∨ (suffix.map Char.toUpper, factor) ∈ units := by
  constructor
  · intro h
    cases h with
    | bytes => exact .inl ⟨rfl, rfl⟩
    | kilo hspelled => rcases hspelled with h | h <;> rw [h] <;> exact .inr (by decide)
    | mega hspelled => rcases hspelled with h | h <;> rw [h] <;> exact .inr (by decide)
    | giga hspelled => rcases hspelled with h | h <;> rw [h] <;> exact .inr (by decide)
  · rintro (⟨rfl, rfl⟩ | hunit)
    · exact .bytes
    · simp only [units, List.mem_cons, Prod.mk.injEq, List.not_mem_nil, or_false] at hunit
      rcases hunit with ⟨h, rfl⟩ | ⟨h, rfl⟩ | ⟨h, rfl⟩ | ⟨h, rfl⟩ | ⟨h, rfl⟩ | ⟨h, rfl⟩
      · exact .giga (.inr h)
      · exact .giga (.inl h)
      · exact .mega (.inr h)
      · exact .mega (.inl h)
      · exact .kilo (.inr h)
      · exact .kilo (.inl h)

/-- Reading a size: it is split, the number is read, and the product has to fit. -/
theorem parse_eq_ok_iff_split {text : String} {number : List Char} {factor value : Nat}
    (h : splitUnit (Text.upper (Text.trim text.toList)) = (number, factor)) :
    parse text = .ok value ↔
      ∃ count, Text.unsigned? (Text.trim number) = some count ∧ value = count * factor ∧
        value < Text.unsignedLimit := by
  unfold parse
  simp only [h]
  cases hcount : Text.unsigned? (Text.trim number) with
  | none => simp
  | some count =>
      simp only [Option.some.injEq, exists_eq_left']
      by_cases hfits : count * factor < Text.unsignedLimit
      · rw [if_pos hfits, Except.ok.injEq]
        constructor
        · rintro rfl
          exact ⟨rfl, hfits⟩
        · exact fun h => h.1.symm
      · rw [if_neg hfits]
        refine iff_of_false (by simp) ?_
        rintro ⟨rfl, hvalue⟩
        exact hfits hvalue

theorem caseless_of_unsigned? {number : List Char} {count : Nat}
    (h : Text.unsigned? (Text.trim number) = some count) : ∀ c ∈ number, Text.Caseless c := by
  obtain ⟨plus, digits, hnumber, hdigits, -⟩ := Text.unsigned?_eq_some_iff.mp h
  obtain ⟨front, tail, hfront, htail, htext⟩ := Text.exists_trim_append number
  rw [htext, hnumber]
  intro c hc
  rcases List.mem_append.mp hc with hwhite | hrest
  · exact .inl (hfront c hwhite)
  · rcases List.mem_append.mp hrest with hcore | hwhite
    · exact Text.caseless_sign_append hdigits c hcore
    · exact .inl (htail c hwhite)

/-- A text whose upper-case form is a number in front of an ending is that number in
front of a suffix. -/
theorem exists_suffix_of_upper {text number ending : List Char} {factor : Nat}
    (hupper : Text.upper text = number ++ ending) (hnumber : ∀ c ∈ number, Text.Caseless c)
    (hending : (ending = [] ∧ factor = 1) ∨ (ending, factor) ∈ units) :
    ∃ suffix, text = number ++ suffix ∧ Suffix suffix factor := by
  have hsize : ∀ c ∈ Text.upper text, Text.IsSizeChar c := by
    rw [hupper]
    intro c hc
    rcases List.mem_append.mp hc with hmem | hmem
    · exact (hnumber c hmem).isSizeChar
    · rcases hending with ⟨rfl, -⟩ | hunit
      · exact absurd hmem List.not_mem_nil
      · exact .inr (.inr (List.mem_cons_of_mem _ ((unit_chars _ hunit).2.2 c hmem)))
  rw [Text.upper_eq_map_of_upper hsize] at hupper
  obtain ⟨front, suffix, rfl, hfront, hsuffix⟩ := List.map_eq_append_iff.mp hupper
  refine ⟨suffix, by rw [Text.eq_of_map_toUpper hfront hnumber], suffix_iff.mpr ?_⟩
  rcases hending with ⟨rfl, hfactor⟩ | hunit
  · exact .inl ⟨List.map_eq_nil_iff.mp hsuffix, hfactor⟩
  · exact .inr (hsuffix ▸ hunit)

theorem written_of_parse {text : String} {value : Nat} (h : parse text = .ok value) :
    ∃ count factor, Written (Text.trim text.toList) count factor ∧ value = count * factor ∧
      value < Text.unsignedLimit := by
  obtain ⟨number, ending, factor, hsplit, hsize, hending⟩ :=
    exists_splitUnit (Text.upper (Text.trim text.toList))
  obtain ⟨count, hcount, hvalue, hfits⟩ := (parse_eq_ok_iff_split hsplit).mp h
  obtain ⟨suffix, htext, hsuffix⟩ :=
    exists_suffix_of_upper hsize (caseless_of_unsigned? hcount) hending
  obtain ⟨plus, digits, hnumber, hdigits, rfl, -⟩ := Text.unsigned?_eq_some_iff.mp hcount
  obtain ⟨front, tail, hfront, htail, hparts⟩ := Text.exists_trim_append number
  -- the text is trimmed, so nothing white stands in front of its number
  have hnone : front = [] := by
    cases front with
    | nil => rfl
    | cons c front =>
        have hwhite := hfront c List.mem_cons_self
        rw [hparts, List.cons_append, List.cons_append] at htext
        exact absurd hwhite (Bool.eq_false_iff.mp (Text.not_isWhite_of_trim_eq_cons htext))
  rw [hnone, List.nil_append, hnumber] at hparts
  refine ⟨_, factor, ?_, hvalue, hfits⟩
  rw [htext, hparts]
  exact .mk hdigits htail hsuffix

/-- A number in front of a suffix is split there, once it is in upper case. -/
theorem splitUnit_upper {number suffix : List Char} {factor : Nat}
    (hnumber : ∀ c ∈ number, Text.Caseless c) (hsuffix : Suffix suffix factor) :
    splitUnit (Text.upper (number ++ suffix)) = (number, factor) := by
  rcases suffix_iff.mp hsuffix with ⟨rfl, rfl⟩ | hunit
  · rw [List.append_nil, Text.upper_of_caseless hnumber]
    apply splitUnit_of_not_suffix
    intro unit hunit hends
    obtain ⟨hne, -, hletters⟩ := unit_chars unit hunit
    obtain ⟨c, rest, hfirst⟩ := List.exists_cons_of_ne_nil hne
    have hmem : c ∈ unit.1 := hfirst ▸ List.mem_cons_self
    have halpha := (hnumber c (hends.subset hmem)).not_isAlpha
    have hletter := hletters c hmem
    simp only [List.mem_cons, List.not_mem_nil, or_false] at hletter
    rcases hletter with rfl | rfl | rfl | rfl <;> exact absurd halpha (by decide)
  · have hletters : Text.upper suffix = suffix.map Char.toUpper := by
      refine Text.upper_eq_map fun c hc => .inr (.inr (List.mem_cons_of_mem _ ?_))
      exact (unit_chars _ hunit).2.2 _ (List.mem_map_of_mem hc)
    rw [Text.upper_append, Text.upper_of_caseless hnumber, hletters]
    exact splitUnit_append hunit number

theorem Suffix.factor_pos {suffix : List Char} {factor : Nat} (h : Suffix suffix factor) :
    0 < factor := by
  cases h <;> norm_num

theorem parse_of_written {text : String} {count factor : Nat}
    (h : Written (Text.trim text.toList) count factor)
    (hfits : count * factor < Text.unsignedLimit) : parse text = .ok (count * factor) := by
  generalize htrim : Text.trim text.toList = size at h
  cases h with
  | @mk plus digits gap suffix _ hdigits hgap hsuffix =>
      have hnumber : ∀ c ∈ Text.sign plus ++ digits ++ gap, Text.Caseless c := by
        intro c hc
        rcases List.mem_append.mp hc with hcore | hwhite
        · exact Text.caseless_sign_append hdigits c hcore
        · exact .inl (hgap c hwhite)
      have hsplit := splitUnit_upper hnumber hsuffix
      rw [← htrim] at hsplit
      refine (parse_eq_ok_iff_split hsplit).mpr ⟨_, Text.unsigned?_eq_some_iff.mpr
        ⟨plus, digits, Text.trim_number_append hdigits hgap, hdigits, rfl, ?_⟩, rfl, hfits⟩
      exact Nat.lt_of_le_of_lt (Nat.le_mul_of_pos_right _ hsuffix.factor_pos) hfits

theorem lt_unsignedLimit_iff {value : Nat} : value < Text.unsignedLimit ↔ value ≤ 2 ^ 64 - 1 := by
  rw [Text.unsignedLimit, UInt64.size]
  omega

/-- Sizes are read by their grammar and with exact arithmetic. A text is the size `value`
exactly if, without the white space around it, it is an optional plus sign, at least one
digit, optional white space and an optional unit, and `value` is the product of number
and unit and fits into 64 bits; every other text is refused. -/
theorem parse_accepts_grammar (text : String) :
    (∀ value, parse text = .ok value ↔
      ∃ count factor, Written (Text.trim text.toList) count factor ∧ value = count * factor ∧
        value ≤ 2 ^ 64 - 1) ∧
    ((∃ problem, parse text = .error problem) ↔
      ¬ ∃ count factor, Written (Text.trim text.toList) count factor ∧
        count * factor ≤ 2 ^ 64 - 1) := by
  have haccepts (value : Nat) : parse text = .ok value ↔
      ∃ count factor, Written (Text.trim text.toList) count factor ∧ value = count * factor ∧
        value ≤ 2 ^ 64 - 1 := by
    constructor
    · intro h
      obtain ⟨count, factor, hwritten, hvalue, hfits⟩ := written_of_parse h
      exact ⟨count, factor, hwritten, hvalue, lt_unsignedLimit_iff.mp hfits⟩
    · rintro ⟨count, factor, hwritten, rfl, hfits⟩
      exact parse_of_written hwritten (lt_unsignedLimit_iff.mpr hfits)
  refine ⟨haccepts, ?_⟩
  constructor
  · rintro ⟨problem, hproblem⟩ ⟨count, factor, hwritten, hfits⟩
    have hok := (haccepts _).mpr ⟨count, factor, hwritten, rfl, hfits⟩
    rw [hproblem] at hok
    cases hok
  · intro hnone
    cases hparse : parse text with
    | ok value =>
        obtain ⟨count, factor, hwritten, rfl, hfits⟩ := (haccepts value).mp hparse
        exact absurd ⟨count, factor, hwritten, hfits⟩ hnone
    | error problem => exact ⟨problem, rfl⟩

/-- A size with white space on both sides of its number, and one whose letter only looks
like a unit. -/
example : parse "\u00a0+0016 \tgB\u3000" = .ok 17179869184 ∧
    parse "1\u212a" = .error (.notNumber ['1', '\u212a']) := by
  decide +kernel

end FileSize

end Marginalia
