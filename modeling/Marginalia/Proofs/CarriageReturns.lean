import Marginalia.Proofs.Context

/-! # Carriage returns in front of newlines

A text can end its lines with a newline alone or with a carriage return and a
newline. A token that holds neither stands at the same places of both forms, so
literals and block comments close at the same places, and say the same up to the
carriage returns.
-/

namespace Marginalia

namespace Text

/-- The text with a carriage return in front of every newline. -/
def crlf (text : List Char) : List Char :=
  text.flatMap fun c => if c = '\n' then ['\r', '\n'] else [c]

@[simp] theorem crlf_nil : crlf [] = [] := rfl

@[simp] theorem crlf_newline (rest : List Char) : crlf ('\n' :: rest) = '\r' :: '\n' :: crlf rest :=
  rfl

theorem crlf_cons {c : Char} (h : c ≠ '\n') (rest : List Char) :
    crlf (c :: rest) = c :: crlf rest := by
  rw [crlf, List.flatMap_cons, if_neg h, List.singleton_append, ← crlf]

theorem crlf_append (front rest : List Char) : crlf (front ++ rest) = crlf front ++ crlf rest :=
  List.flatMap_append

theorem crlf_of_not_mem {text : List Char} (h : '\n' ∉ text) : crlf text = text := by
  induction text with
  | nil => rfl
  | cons c rest ih =>
      rw [List.mem_cons, not_or] at h
      rw [crlf_cons (Ne.symm h.1), ih h.2]

theorem count_newline_crlf (text : List Char) : (crlf text).count '\n' = text.count '\n' := by
  induction text with
  | nil => rfl
  | cons c rest ih =>
      by_cases hc : c = '\n'
      · subst hc
        rw [crlf_newline, List.count_cons_of_ne (by decide), List.count_cons_self,
          List.count_cons_self, ih]
      · rw [crlf_cons hc, List.count_cons_of_ne hc, List.count_cons_of_ne hc, ih]

/-- The last character of a text is no carriage return that was put in. -/
theorem getLast?_crlf (text : List Char) : (crlf text).getLast? = text.getLast? := by
  rcases List.eq_nil_or_concat text with rfl | ⟨front, c, rfl⟩
  · rfl
  · rw [List.concat_eq_append, crlf_append, List.getLast?_concat]
    by_cases hc : c = '\n'
    · subst hc
      rw [crlf_newline, crlf_nil, List.getLast?_append, List.getLast?_cons_cons,
        List.getLast?_singleton, Option.some_or]
    · rw [crlf_cons hc, crlf_nil, List.getLast?_concat]

/-- A carriage return at the head was put in, and a newline follows it. -/
theorem exists_newline_of_crlf_eq {text new : List Char} (h : crlf text = '\r' :: new)
    (hreturn : '\r' ∉ text) : ∃ more, text = '\n' :: more ∧ new = '\n' :: crlf more := by
  cases text with
  | nil => exact absurd h nofun
  | cons c more =>
      by_cases hc : c = '\n'
      · subst hc
        exact ⟨more, rfl, (List.cons.inj h).2.symm⟩
      · rw [crlf_cons hc] at h
        exact absurd ((List.cons.inj h).1 ▸ List.mem_cons_self) hreturn

theorem isPrefix_crlf_iff {chars text : List Char} (hreturn : '\r' ∉ chars)
    (hnewline : '\n' ∉ chars) : chars <+: crlf text ↔ chars <+: text := by
  induction text generalizing chars with
  | nil => rfl
  | cons c rest ih =>
      cases chars with
      | nil => exact iff_of_true List.nil_prefix List.nil_prefix
      | cons d chars =>
          rw [List.mem_cons, not_or] at hreturn hnewline
          by_cases hc : c = '\n'
          · -- the token holds neither of the two characters that can stand here
            subst hc
            rw [crlf_newline, List.cons_prefix_cons, List.cons_prefix_cons]
            exact iff_of_false (fun h => hreturn.1 h.1.symm) (fun h => hnewline.1 h.1.symm)
          · rw [crlf_cons hc, List.cons_prefix_cons, List.cons_prefix_cons,
              ih hreturn.2 hnewline.2]

end Text

open Text

/-! ## Rules without line endings -/

/-- The token holds no line ending. -/
structure Token.Inline (token : Token) : Prop where
  carriage : '\r' ∉ token.chars
  newline : '\n' ∉ token.chars

instance (token : Token) : Decidable token.Inline :=
  decidable_of_iff ('\r' ∉ token.chars ∧ '\n' ∉ token.chars)
    ⟨fun h => ⟨h.1, h.2⟩, fun h => ⟨h.carriage, h.newline⟩⟩

/-- Neither the delimiter nor the escape is part of a line ending. -/
structure LiteralRule.Inline (rule : LiteralRule) : Prop where
  delimiter : rule.delimiter ≠ '\r' ∧ rule.delimiter ≠ '\n'
  escape : rule.escape ≠ some '\r' ∧ rule.escape ≠ some '\n'

instance (rule : LiteralRule) : Decidable rule.Inline :=
  decidable_of_iff ((rule.delimiter ≠ '\r' ∧ rule.delimiter ≠ '\n') ∧
      rule.escape ≠ some '\r' ∧ rule.escape ≠ some '\n')
    ⟨fun h => ⟨h.1, h.2⟩, fun h => ⟨h.delimiter, h.escape⟩⟩

/-- No rule of the grammar looks for a line ending. -/
structure Grammar.Inline (grammar : Grammar) : Prop where
  token : ∀ token ∈ grammar.tokens, token.Inline
  literal : ∀ rule ∈ grammar.literals, rule.Inline

namespace Token.Inline

theorem crlf_chars {token : Token} (h : token.Inline) : crlf token.chars = token.chars :=
  crlf_of_not_mem h.newline

theorem crlf_chars_append {token : Token} (h : token.Inline) (rest : List Char) :
    crlf (token.chars ++ rest) = token.chars ++ crlf rest := by
  rw [crlf_append, h.crlf_chars]

theorem isPrefix_crlf_iff {token : Token} (h : token.Inline) {text : List Char} :
    token.chars <+: crlf text ↔ token.chars <+: text :=
  Text.isPrefix_crlf_iff h.carriage h.newline

end Token.Inline

/-! ## Where literals end -/

namespace LiteralRule

theorem Units.crlf {rule : LiteralRule} (hinline : rule.Inline) {body : List Char}
    (h : rule.Units body) : rule.Units (crlf body) := by
  obtain ⟨hreturn, hnewline⟩ := hinline.escape
  induction h with
  | nil => exact .nil
  | @escaped e c rest hescape _ ih =>
      have he : e ≠ '\n' := fun heq => hnewline (heq ▸ hescape)
      rw [crlf_cons he]
      by_cases hc : c = '\n'
      · -- the escape takes the carriage return, and the newline stands for itself
        subst hc
        exact .escaped hescape (.other hnewline hinline.delimiter.2.symm ih)
      · rw [crlf_cons hc]
        exact .escaped hescape ih
  | @other c rest hescape hdelimiter _ ih =>
      by_cases hc : c = '\n'
      · subst hc
        exact .other hreturn hinline.delimiter.1.symm (.other hescape hdelimiter ih)
      · rw [crlf_cons hc]
        exact .other hescape hdelimiter ih

theorem Encloses.crlf {rule : LiteralRule} (hinline : rule.Inline) {body : List Char}
    (h : rule.Encloses body) : rule.Encloses (crlf body) :=
  ⟨h.units.crlf hinline, h.closes⟩

theorem closeFrom?_other {rule : LiteralRule} {c : Char} (hescape : rule.escape ≠ some c)
    (hdelimiter : c ≠ rule.delimiter) (offset : Nat) (rest : List Char) :
    rule.closeFrom? offset (c :: rest) = rule.closeFrom? (offset + 1) rest := by
  rw [closeFrom?.eq_def]
  simp only [if_neg (Ne.symm hescape), if_neg hdelimiter]

/-- A literal that is never closed is not closed by carriage returns. -/
theorem closeFrom?_crlf_eq_none {rule : LiteralRule} (hinline : rule.Inline) {offset : Nat}
    {text : List Char} (h : rule.closeFrom? offset text = none) (start : Nat) :
    rule.closeFrom? start (crlf text) = none := by
  have hreturn := closeFrom?_other hinline.escape.1 hinline.delimiter.1.symm
  have hnewline := closeFrom?_other hinline.escape.2 hinline.delimiter.2.symm
  fun_induction closeFrom? rule offset text generalizing start with
  | case1 offset => rfl
  | case2 offset c hescape =>
      have hc : c ≠ '\n' := fun heq => hinline.escape.2 (heq ▸ hescape.symm)
      rw [crlf_cons hc, crlf_nil, closeFrom?, if_pos hescape]
  | case3 offset c hescape d more ih =>
      have hc : c ≠ '\n' := fun heq => hinline.escape.2 (heq ▸ hescape.symm)
      rw [crlf_cons hc]
      by_cases hd : d = '\n'
      · subst hd
        rw [crlf_newline, closeFrom?, if_pos hescape, hnewline]
        exact ih h _
      · rw [crlf_cons hd, closeFrom?, if_pos hescape]
        exact ih h _
  | case4 offset rest hescape => exact absurd h (Option.some_ne_none _)
  | case5 offset c rest hescape hdelimiter ih =>
      by_cases hc : c = '\n'
      · subst hc
        rw [crlf_newline, hreturn, hnewline]
        exact ih h _
      · rw [crlf_cons hc, closeFrom?_other (Ne.symm hescape) hdelimiter]
        exact ih h _

theorem Dangles.crlf {rule : LiteralRule} (hinline : rule.Inline) {text : List Char}
    (h : rule.Dangles text) : rule.Dangles (crlf text) := by
  have hnone : rule.closeFrom? 0 text = none := closeFrom?_eq_none_iff.mpr h
  exact closeFrom?_eq_none_iff.mp (closeFrom?_crlf_eq_none hinline hnone 0)

end LiteralRule

/-! ## Where block comments end -/

/-- The first occurrence of a token moves by the carriage returns in front of
it. -/
theorem Token.Inline.indexFrom?_crlf {token : Token} (h : token.Inline) (front text : List Char) :
    token.indexFrom? (crlf front).length (crlf text) =
      (token.indexFrom? front.length text).map fun place =>
        (crlf ((front ++ text).take place)).length := by
  induction text generalizing front with
  | nil => rfl
  | cons c rest ih =>
      have hnext := ih (front ++ [c])
      rw [List.append_assoc, List.singleton_append, crlf_append, List.length_append,
        List.length_append, List.length_singleton] at hnext
      by_cases hstands : token.chars <+: c :: rest
      · obtain ⟨d, tail, hcrlf⟩ : ∃ d tail, crlf (c :: rest) = d :: tail := by
          by_cases hc : c = '\n'
          · exact ⟨_, _, hc ▸ crlf_newline rest⟩
          · exact ⟨_, _, crlf_cons hc rest⟩
        have hnew : token.chars <+: d :: tail := hcrlf ▸ h.isPrefix_crlf_iff.mpr hstands
        rw [hcrlf, Token.indexFrom?, if_pos (List.isPrefixOf_iff_prefix.mpr hnew),
          Token.indexFrom?, if_pos (List.isPrefixOf_iff_prefix.mpr hstands), Option.map_some,
          List.take_left]
      · have hnot : ¬ token.chars <+: crlf (c :: rest) :=
          fun hnew => hstands (h.isPrefix_crlf_iff.mp hnew)
        rw [Token.indexFrom?, if_neg (mt List.isPrefixOf_iff_prefix.mp hstands), ← hnext]
        by_cases hc : c = '\n'
        · subst hc
          have hnewline := Token.not_prefix_of_not_mem h.newline (crlf rest)
          rw [crlf_newline] at hnot ⊢
          rw [Token.indexFrom?, if_neg (mt List.isPrefixOf_iff_prefix.mp hnot),
            Token.indexFrom?, if_neg (mt List.isPrefixOf_iff_prefix.mp hnewline)]
          rfl
        · rw [crlf_cons hc] at hnot ⊢
          rw [Token.indexFrom?, if_neg (mt List.isPrefixOf_iff_prefix.mp hnot), crlf_cons hc]
          rfl

namespace BlockRule

/-- The closing token that balances a comment moves by the carriage returns in
front of it. -/
theorem balanceFrom?_crlf {rule : BlockRule} (hopen : rule.opening.Inline)
    (hclose : rule.closing.Inline) (inner : Nat) (front text : List Char) :
    rule.balanceFrom? inner (crlf front).length (crlf text) =
      (rule.balanceFrom? inner front.length text).map fun place =>
        (crlf ((front ++ text).take place)).length := by
  generalize hoffset : front.length = offset
  fun_induction balanceFrom? rule inner offset text generalizing front with
  | case1 inner offset =>
      rw [crlf_nil, balanceFrom?]
      rfl
  | case2 offset c rest after hstrip =>
      rw [Token.strip?_eq_some_iff.mp hstrip, hclose.crlf_chars_append,
        balanceFrom?_closing_zero, Option.map_some, ← hoffset, List.take_left]
  | case3 offset c rest after hstrip outer ih =>
      have hnext := ih (front ++ rule.closing.chars)
        (by rw [List.length_append, hoffset, Token.length_chars])
      rw [Token.strip?_eq_some_iff.mp hstrip, hclose.crlf_chars_append, balanceFrom?_closing,
        ← List.append_assoc, ← hnext, crlf_append, hclose.crlf_chars, List.length_append,
        Token.length_chars]
  | case4 inner offset c rest hstrip after hstrip' ih =>
      have hnext := ih (front ++ rule.opening.chars)
        (by rw [List.length_append, hoffset, Token.length_chars])
      have hnot := Token.strip?_eq_none_iff.mp hstrip
      rw [Token.strip?_eq_some_iff.mp hstrip'] at hnot ⊢
      rw [← hclose.isPrefix_crlf_iff, hopen.crlf_chars_append] at hnot
      rw [hopen.crlf_chars_append, balanceFrom?_opening hnot, ← List.append_assoc, ← hnext,
        crlf_append, hopen.crlf_chars, List.length_append, Token.length_chars]
  | case5 inner offset c rest hstrip hstrip' ih =>
      have hnext := ih (front ++ [c]) (by rw [List.length_append, hoffset, List.length_singleton])
      have hnotClose := mt hclose.isPrefix_crlf_iff.mp (Token.strip?_eq_none_iff.mp hstrip)
      have hnotOpen := mt hopen.isPrefix_crlf_iff.mp (Token.strip?_eq_none_iff.mp hstrip')
      rw [List.append_assoc, List.singleton_append, crlf_append, List.length_append] at hnext
      rw [← hnext]
      by_cases hc : c = '\n'
      · -- two characters are passed over in place of one
        subst hc
        rw [crlf_newline] at hnotClose hnotOpen ⊢
        rw [balanceFrom?_other hnotClose hnotOpen,
          balanceFrom?_other (Token.not_prefix_of_not_mem hclose.newline _)
            (Token.not_prefix_of_not_mem hopen.newline _)]
        rfl
      · rw [crlf_cons hc] at hnotClose hnotOpen ⊢
        rw [balanceFrom?_other hnotClose hnotOpen, crlf_cons hc]
        rfl

theorem close?_crlf {rule : BlockRule} (hopen : rule.opening.Inline)
    (hclose : rule.closing.Inline) (text : List Char) :
    rule.close? (crlf text) =
      (rule.close? text).map fun place => (crlf (text.take place)).length := by
  unfold close?
  split
  · exact balanceFrom?_crlf hopen hclose 0 [] text
  · exact hclose.indexFrom?_crlf [] text

theorem Closes.crlf {rule : BlockRule} (hopen : rule.opening.Inline) (hclose : rule.closing.Inline)
    {body after : List Char} (h : rule.Closes body after) :
    rule.Closes (crlf body) (crlf after) := by
  have hplace : rule.close? (body ++ (rule.closing.chars ++ after)) = some body.length :=
    close?_eq_some_iff.mpr ⟨body, after, rfl, rfl, h⟩
  have hmoved := close?_crlf hopen hclose (body ++ (rule.closing.chars ++ after))
  rw [hplace, Option.map_some, List.take_left, crlf_append, hclose.crlf_chars_append] at hmoved
  -- the closing token found is the one after the body, as it is found that far on
  obtain ⟨body', after', htext, hlength, hcloses⟩ := close?_eq_some_iff.mp hmoved
  obtain ⟨rfl, htail⟩ := List.append_inj htext hlength
  obtain rfl := List.append_cancel_left htail
  exact hcloses

theorem Dangles.crlf {rule : BlockRule} (hopen : rule.opening.Inline) (hclose : rule.closing.Inline)
    {text : List Char} (h : rule.Dangles text) : rule.Dangles (crlf text) := by
  rw [← read?_eq_none_iff, read?, Option.map_eq_none_iff] at h ⊢
  rw [close?_crlf hopen hclose, h, Option.map_none]

end BlockRule

end Marginalia
