import Marginalia.Proofs.JsonGrammar
import Marginalia.Proofs.ReadingBack

/-! # Strings and numbers in JSON are unambiguous

A string ends at the first quote that no escape holds, and a number where neither a
digit nor anything else that a number is made of follows. Two strings or two numbers
that are written alike up to their ends are therefore the same.
-/

namespace Marginalia.JsonValue

/-! ## One character, one string -/

theorem length_eq_of_unit? {digits : List Char} {number : Nat} (h : unit? digits = some number) :
    digits.length = 4 := by
  unfold unit? at h
  split at h
  next hlength => exact hlength
  next => exact absurd h (Option.some_ne_none _).symm

/-- Two escapes by number that start alike have the same number. -/
theorem unit?_unique {digits other rest more : List Char} {number number' : Nat}
    (h : unit? digits = some number) (h' : unit? other = some number')
    (heq : digits ++ rest = other ++ more) : number = number' ∧ rest = more := by
  have hlength := (length_eq_of_unit? h).trans (length_eq_of_unit? h').symm
  obtain ⟨rfl, hrest⟩ := List.append_inj heq hlength
  exact ⟨Option.some.inj (h.symm.trans h'), hrest⟩

/-- No character has the number of a surrogate. -/
theorem not_surrogate (c : Char) : ¬ (0xD800 ≤ c.toNat ∧ c.toNat < 0xE000) := by
  rintro ⟨hlow, hhigh⟩
  rcases c.valid with hsmall | hlarge
  · exact absurd hlow (Nat.not_le.mpr hsmall)
  · exact absurd hlarge.1 (Nat.not_lt.mpr (Nat.le_of_lt_succ hhigh))

theorem SpellsNumber.unique {c d : Char} {text other rest more : List Char}
    (h : SpellsNumber c text) (h' : SpellsNumber d other) (heq : text ++ rest = other ++ more) :
    c = d ∧ rest = more := by
  cases h with
  | unit hnumber =>
      cases h' with
      | unit hnumber' =>
          obtain ⟨hsame, hrest⟩ := unit?_unique hnumber hnumber' heq
          exact ⟨Char.toNat_inj.mp hsame, hrest⟩
      -- The first of two surrogates is not the number of a character.
      | pair hhigh' _ hrange' _ _ =>
          rw [List.append_assoc] at heq
          obtain ⟨rfl, -⟩ := unit?_unique hnumber hhigh' heq
          exact absurd ⟨hrange'.1, Nat.lt_trans hrange'.2 (by decide)⟩ (not_surrogate c)
  | pair hhigh hlow hrange hrange₂ hnumber =>
      cases h' with
      | unit hnumber' =>
          rw [List.append_assoc] at heq
          obtain ⟨rfl, -⟩ := unit?_unique hhigh hnumber' heq
          exact absurd ⟨hrange.1, Nat.lt_trans hrange.2 (by decide)⟩ (not_surrogate d)
      | pair hhigh' hlow' _ _ hnumber' =>
          rw [List.append_assoc, List.append_assoc] at heq
          obtain ⟨rfl, hlater⟩ := unit?_unique hhigh hhigh' heq
          obtain ⟨rfl, hrest⟩ :=
            unit?_unique hlow hlow' (List.cons.inj (List.cons.inj hlater).2).2
          exact ⟨Char.toNat_inj.mp (hnumber.trans hnumber'.symm), hrest⟩

theorem SpellsChar.unique {c d : Char} {text other rest more : List Char}
    (h : SpellsChar c text) (h' : SpellsChar d other) (heq : text ++ rest = other ++ more) :
    c = d ∧ rest = more := by
  cases h with
  | plain _ _ hescape =>
      cases h' with
      | plain => exact List.cons.inj heq
      | short => exact absurd (List.cons.inj heq).1 hescape
      | numbered => exact absurd (List.cons.inj heq).1 hescape
  | short hlisted =>
      cases h' with
      | plain _ _ hescape => exact absurd (List.cons.inj heq).1.symm hescape
      | short hlisted' =>
          obtain ⟨rfl, hrest⟩ := List.cons.inj (List.cons.inj heq).2
          exact ⟨Option.some.inj (hlisted.symm.trans hlisted'), hrest⟩
      | numbered =>
          obtain ⟨rfl, -⟩ := List.cons.inj (List.cons.inj heq).2
          exact absurd hlisted (Option.some_ne_none c).symm
  | numbered hspelled =>
      cases h' with
      | plain _ _ hescape => exact absurd (List.cons.inj heq).1.symm hescape
      | short hlisted' =>
          obtain ⟨rfl, -⟩ := List.cons.inj (List.cons.inj heq).2
          exact absurd hlisted' (Option.some_ne_none d).symm
      | numbered hspelled' =>
          exact hspelled.unique hspelled' (List.cons.inj (List.cons.inj heq).2).2

/-- No character is written with a quote in front. -/
theorem SpellsChar.exists_eq_cons {c : Char} {text : List Char} (h : SpellsChar c text) :
    ∃ first rest, text = first :: rest ∧ first ≠ '"' := by
  cases h with
  | plain _ hquote _ => exact ⟨_, _, rfl, hquote⟩
  | short => exact ⟨_, _, rfl, by decide⟩
  | numbered => exact ⟨_, _, rfl, by decide⟩

theorem SpellsChars.unique {chars others text other rest more : List Char}
    (h : SpellsChars chars text) (h' : SpellsChars others other)
    (heq : text ++ '"' :: rest = other ++ '"' :: more) : chars = others ∧ rest = more := by
  induction h generalizing others other with
  | nil =>
      cases h' with
      | nil => exact ⟨rfl, (List.cons.inj heq).2⟩
      | cons hfirst' _ =>
          obtain ⟨first, tail, rfl, hquote⟩ := hfirst'.exists_eq_cons
          exact absurd (List.cons.inj heq).1.symm hquote
  | cons hfirst hrest ih =>
      cases h' with
      | nil =>
          obtain ⟨first, tail, rfl, hquote⟩ := hfirst.exists_eq_cons
          exact absurd (List.cons.inj heq).1 hquote
      | cons hfirst' hrest' =>
          rw [List.append_assoc, List.append_assoc] at heq
          obtain ⟨rfl, hlater⟩ := hfirst.unique hfirst' heq
          obtain ⟨rfl, hmore⟩ := ih hrest' hlater
          exact ⟨rfl, hmore⟩

theorem SpellsString.unique {value other : String} {text text' rest more : List Char}
    (h : SpellsString value text) (h' : SpellsString other text')
    (heq : text ++ rest = text' ++ more) : value = other ∧ rest = more := by
  cases h with
  | quoted hchars =>
      cases h' with
      | quoted hchars' =>
          rw [List.cons_append, List.cons_append, List.append_assoc, List.append_assoc] at heq
          obtain ⟨hsame, hrest⟩ := hchars.unique hchars' (List.cons.inj heq).2
          exact ⟨String.toList_inj.mp hsame, hrest⟩

/-! ## One number -/

/-- The characters that can follow a value, besides blanks. -/
def delimiters : List Char :=
  [',', ':', ']', '}']

/-- The text is empty or starts with one of these characters. -/
def HeadIn (allowed text : List Char) : Prop :=
  ∀ c ∈ text.head?, c ∈ allowed

theorem HeadIn.append {allowed text more : List Char} (h : HeadIn allowed text)
    (hmore : HeadIn allowed more) : HeadIn allowed (text ++ more) := by
  intro c hc
  rw [List.head?_append, Option.mem_def, Option.or_eq_some_iff] at hc
  rcases hc with hc | ⟨-, hc⟩
  · exact h c hc
  · exact hmore c hc

theorem HeadIn.mono {allowed wider text : List Char} (h : HeadIn allowed text)
    (hsub : allowed ⊆ wider) : HeadIn wider text :=
  fun c hc => hsub (h c hc)

theorem HeadIn.cons {allowed : List Char} {c : Char} (h : c ∈ allowed) (text : List Char) :
    HeadIn allowed (c :: text) := by
  intro d hd
  obtain rfl := Option.mem_some.mp hd
  exact h

/-- Digits end at a character that can stand after them. -/
theorem IsDigits.unique {digits other rest more : List Char} (h : IsDigits digits)
    (h' : IsDigits other) (hrest : HeadIn ('.' :: 'e' :: 'E' :: (blanks ++ delimiters)) rest)
    (hmore : HeadIn ('.' :: 'e' :: 'E' :: (blanks ++ delimiters)) more)
    (heq : digits ++ rest = other ++ more) : digits = other ∧ rest = more := by
  have hstops : ∀ c ∈ '.' :: 'e' :: 'E' :: (blanks ++ delimiters), ¬ c.isDigit = true := by
    simp [blanks, delimiters]
  exact run_inj h.2 h'.2 (fun c hc => hstops c (hrest c hc)) (fun c hc => hstops c (hmore c hc)) heq

theorem IsDigits.exists_eq_cons {digits : List Char} (h : IsDigits digits) :
    ∃ c tail, digits = c :: tail ∧ c.isDigit = true := by
  obtain ⟨c, tail, rfl⟩ := List.exists_cons_of_ne_nil h.1
  exact ⟨c, tail, rfl, h.2 c List.mem_cons_self⟩

/-- Digits do not start with a sign. -/
theorem IsDigits.head_not_sign {digits : List Char} (h : IsDigits digits) (rest : List Char) :
    ∀ c ∈ (digits ++ rest).head?, c ∉ ['+', '-'] := by
  obtain ⟨c, tail, rfl, hdigit⟩ := h.exists_eq_cons
  have hsigns : ∀ d ∈ ['+', '-'], ¬ d.isDigit = true := by simp
  intro d hd hsign
  obtain rfl := Option.mem_some.mp hd
  exact hsigns c hsign hdigit

/-- Whether an optional part is there can be seen at the first character, if what comes
after the part never starts as the part does. -/
theorem optional_unique {α : Type} {starts : List Char} {text : α → List Char}
    {part other : Option α} {rest more : List Char}
    (hpart : ∀ a ∈ part, ∃ c tail, text a = c :: tail ∧ c ∈ starts)
    (hother : ∀ a ∈ other, ∃ c tail, text a = c :: tail ∧ c ∈ starts)
    (hrest : ∀ c ∈ rest.head?, c ∉ starts) (hmore : ∀ c ∈ more.head?, c ∉ starts)
    (hboth : ∀ a ∈ part, ∀ b ∈ other, text a ++ rest = text b ++ more → a = b ∧ rest = more)
    (heq : part.elim [] text ++ rest = other.elim [] text ++ more) :
    part = other ∧ rest = more := by
  cases part with
  | none =>
      cases other with
      | none => exact ⟨rfl, heq⟩
      | some b =>
          obtain ⟨c, tail, htext, hc⟩ := hother b rfl
          have hhead : rest = c :: (tail ++ more) := by simpa [htext] using heq
          exact absurd hc (hrest c (by rw [hhead]; rfl))
  | some a =>
      cases other with
      | none =>
          obtain ⟨c, tail, htext, hc⟩ := hpart a rfl
          have hhead : more = c :: (tail ++ rest) := by simpa [htext] using heq.symm
          exact absurd hc (hmore c (by rw [hhead]; rfl))
      | some b =>
          obtain ⟨hsame, hafter⟩ := hboth a rfl b rfl heq
          exact ⟨congrArg some hsame, hafter⟩

theorem Exponent.Proper.unique {exponent other : Exponent} {rest more : List Char}
    (h : exponent.Proper) (h' : other.Proper) (hrest : HeadIn (blanks ++ delimiters) rest)
    (hmore : HeadIn (blanks ++ delimiters) more)
    (heq : exponent.text ++ rest = other.text ++ more) : exponent = other ∧ rest = more := by
  have hwide : blanks ++ delimiters ⊆ '.' :: 'e' :: 'E' :: (blanks ++ delimiters) :=
    List.subset_append_right ['.', 'e', 'E'] _
  have hsigns {exponent : Exponent} (h : exponent.Proper) :
      ∀ c ∈ exponent.sign.toList, c ∈ ['+', '-'] :=
    fun c hc => h.sign c (Option.mem_toList.mp hc)
  unfold text at heq
  rw [List.cons_append, List.cons_append, List.append_assoc, List.append_assoc] at heq
  obtain ⟨hletter, hlater⟩ := List.cons.inj heq
  obtain ⟨hsign, hafter⟩ := run_inj (hsigns h) (hsigns h') (h.digits.head_not_sign rest)
    (h'.digits.head_not_sign more) hlater
  obtain ⟨hsame, hend⟩ := h.digits.unique h'.digits (hrest.mono hwide) (hmore.mono hwide) hafter
  have hsign : exponent.sign = other.sign := by simpa using congrArg List.head? hsign
  exact ⟨Exponent.ext hletter hsign hsame, hend⟩

namespace Numeral

theorem Proper.headIn_exponentText {numeral : Numeral} (h : numeral.Proper) {rest : List Char}
    (hrest : HeadIn (blanks ++ delimiters) rest) :
    HeadIn ('e' :: 'E' :: (blanks ++ delimiters)) (numeral.exponentText ++ rest) := by
  refine HeadIn.append ?_ (hrest.mono (List.subset_append_right ['e', 'E'] _))
  unfold exponentText
  cases hexponent : numeral.exponent with
  | none => exact fun c hc => absurd hc (Option.not_mem_none c)
  | some exponent =>
      have hletter : exponent.letter ∈ ['e', 'E'] := (h.exponent exponent hexponent).letter
      exact HeadIn.cons (List.mem_append_left (blanks ++ delimiters) hletter) _

theorem Proper.headIn_fractionText {numeral : Numeral} (h : numeral.Proper) {rest : List Char}
    (hrest : HeadIn (blanks ++ delimiters) rest) :
    HeadIn ('.' :: 'e' :: 'E' :: (blanks ++ delimiters))
      (numeral.fractionText ++ (numeral.exponentText ++ rest)) := by
  refine HeadIn.append ?_ ((h.headIn_exponentText hrest).mono (List.subset_cons_self _ _))
  unfold fractionText
  cases numeral.fraction with
  | none => exact fun c hc => absurd hc (Option.not_mem_none c)
  | some digits => exact HeadIn.cons List.mem_cons_self digits

theorem exponent_unique {numeral other : Numeral} {rest more : List Char} (h : numeral.Proper)
    (h' : other.Proper) (hrest : HeadIn (blanks ++ delimiters) rest)
    (hmore : HeadIn (blanks ++ delimiters) more)
    (heq : numeral.exponentText ++ rest = other.exponentText ++ more) :
    numeral.exponent = other.exponent ∧ rest = more := by
  have hstops : ∀ c ∈ blanks ++ delimiters, c ∉ ['e', 'E'] := by simp [blanks, delimiters]
  have hstarts {numeral : Numeral} (h : numeral.Proper) : ∀ exponent ∈ numeral.exponent,
      ∃ c tail, exponent.text = c :: tail ∧ c ∈ ['e', 'E'] :=
    fun exponent hexponent => ⟨_, _, rfl, (h.exponent exponent hexponent).letter⟩
  exact optional_unique (hstarts h) (hstarts h') (fun c hc => hstops c (hrest c hc))
    (fun c hc => hstops c (hmore c hc))
    (fun exponent hexponent exponent' hexponent' =>
      (h.exponent exponent hexponent).unique (h'.exponent exponent' hexponent') hrest hmore) heq

theorem fraction_unique {numeral other : Numeral} {rest more : List Char} (h : numeral.Proper)
    (h' : other.Proper) (hrest : HeadIn ('e' :: 'E' :: (blanks ++ delimiters)) rest)
    (hmore : HeadIn ('e' :: 'E' :: (blanks ++ delimiters)) more)
    (heq : numeral.fractionText ++ rest = other.fractionText ++ more) :
    numeral.fraction = other.fraction ∧ rest = more := by
  have hstops : ∀ c ∈ 'e' :: 'E' :: (blanks ++ delimiters), c ∉ ['.'] := by
    simp [blanks, delimiters]
  have hwide := List.subset_cons_self '.' ('e' :: 'E' :: (blanks ++ delimiters))
  have hstarts (digits : List Char) : ∃ c tail, '.' :: digits = c :: tail ∧ c ∈ ['.'] :=
    ⟨_, _, rfl, List.mem_singleton_self _⟩
  refine optional_unique (fun digits _ => hstarts digits) (fun digits _ => hstarts digits)
    (fun c hc => hstops c (hrest c hc)) (fun c hc => hstops c (hmore c hc)) ?_ heq
  intro digits hdigits digits' hdigits' hsame
  exact (h.fraction digits hdigits).unique (h'.fraction digits' hdigits') (hrest.mono hwide)
    (hmore.mono hwide) (List.cons.inj hsame).2

theorem sign_unique {numeral other : Numeral} {rest more : List Char} (h : numeral.Proper)
    (h' : other.Proper)
    (heq : numeral.signText ++ (numeral.whole ++ rest) = other.signText ++ (other.whole ++ more)) :
    numeral.negative = other.negative ∧ numeral.whole ++ rest = other.whole ++ more := by
  have hsigns (numeral : Numeral) : ∀ c ∈ numeral.signText, c ∈ ['+', '-'] := by
    unfold signText
    split <;> simp
  obtain ⟨hsign, hafter⟩ := run_inj (hsigns numeral) (hsigns other)
    (h.whole.head_not_sign rest) (h'.whole.head_not_sign more) heq
  refine ⟨?_, hafter⟩
  unfold signText at hsign
  cases hnegative : numeral.negative <;> cases hnegative' : other.negative <;> simp_all

/-- A number is read in one way. -/
theorem Proper.unique {numeral other : Numeral} {rest more : List Char} (h : numeral.Proper)
    (h' : other.Proper) (hrest : HeadIn (blanks ++ delimiters) rest)
    (hmore : HeadIn (blanks ++ delimiters) more) (heq : numeral.text ++ rest = other.text ++ more) :
    numeral = other ∧ rest = more := by
  unfold text at heq
  simp only [List.append_assoc] at heq
  obtain ⟨hnegative, hdigits⟩ := sign_unique h h' heq
  obtain ⟨hwhole, hlater⟩ := h.whole.unique h'.whole (h.headIn_fractionText hrest)
    (h'.headIn_fractionText hmore) hdigits
  obtain ⟨hfraction, hlast⟩ := fraction_unique h h' (h.headIn_exponentText hrest)
    (h'.headIn_exponentText hmore) hlater
  obtain ⟨hexponent, hend⟩ := exponent_unique h h' hrest hmore hlast
  exact ⟨Numeral.ext hnegative hwhole hfraction hexponent, hend⟩

end Numeral

end Marginalia.JsonValue
