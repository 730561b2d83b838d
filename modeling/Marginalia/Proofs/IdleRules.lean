import Mathlib.Data.List.Infix
import Marginalia.Language
import Marginalia.Proofs.Scanning

/-! # Rules that cannot fire

A rule is tried only where its first token stands. A rule whose first token does
not occur in a text at all can be left out of the grammar, and the text is
scanned as before. Languages that differ in such rules alone agree on the text.
-/

namespace Marginalia

/-- A token that does not occur in a text stands at no place of it. -/
theorem Token.strip?_eq_none_of_absent {token : Token} {text place : List Char}
    (hplace : place <:+ text) (h : ¬ token.chars <:+: text) : token.strip? place = none := by
  rw [strip?_eq_none_iff]
  intro hstands
  exact h (hstands.isInfix.trans hplace.isInfix)

namespace Grammar

/-- The grammar with only those rules, in the same order, whose first token
occurs in the text. -/
def restrict (grammar : Grammar) (text : List Char) : Grammar where
  verbatim := grammar.verbatim.filter fun token => token.chars <:+: text
  literals := grammar.literals.filter fun rule => rule.delimiter ∈ text
  line := grammar.line.filter fun rule => rule.marker.chars <:+: text
  block := grammar.block.filter fun rule => rule.opening.chars <:+: text

/-! ## One segment -/

theorem verbatimAt?_restrict (grammar : Grammar) {text place : List Char}
    (hplace : place <:+ text) :
    (grammar.restrict text).verbatimAt? place = grammar.verbatimAt? place := by
  unfold verbatimAt? restrict
  simp only [← List.head?_filterMap, List.filterMap_filter]
  congr 2
  funext token
  split
  next => rfl
  next hidle =>
    rw [Token.strip?_eq_none_of_absent hplace (by simpa using hidle)]
    rfl

theorem literalAt?_restrict (grammar : Grammar) {text : List Char} {c : Char}
    {rest : List Char} (hplace : c :: rest <:+ text) :
    (grammar.restrict text).literalAt? c rest = grammar.literalAt? c rest := by
  unfold literalAt? restrict
  simp only [List.find?_filter]
  congr 2
  funext rule
  have hmem : c ∈ text := hplace.subset List.mem_cons_self
  by_cases hdelimiter : rule.delimiter = c
  · simp [hdelimiter, hmem]
  · simp [hdelimiter]

theorem blockAt?_restrict (grammar : Grammar) {text place : List Char} (hplace : place <:+ text) :
    (grammar.restrict text).blockAt? place = grammar.blockAt? place := by
  unfold blockAt? restrict
  cases grammar.block with
  | none => rfl
  | some rule =>
      by_cases hoccurs : rule.opening.chars <:+: text
      · simp [Option.filter, hoccurs]
      · simp [Option.filter, hoccurs, Token.strip?_eq_none_of_absent hplace hoccurs]

theorem lineAt?_restrict (grammar : Grammar) (before : Option Char) {text place : List Char}
    (hplace : place <:+ text) :
    (grammar.restrict text).lineAt? before place = grammar.lineAt? before place := by
  unfold lineAt? restrict
  cases grammar.line with
  | none => rfl
  | some rule =>
      by_cases hoccurs : rule.marker.chars <:+: text
      · simp [Option.filter, hoccurs]
      · simp [Option.filter, hoccurs, Token.strip?_eq_none_of_absent hplace hoccurs]

/-- At every place of the text the same segment is read. -/
theorem next?_restrict (grammar : Grammar) (before : Option Char) {text : List Char} {c : Char}
    {rest : List Char} (hplace : c :: rest <:+ text) :
    (grammar.restrict text).next? before c rest = grammar.next? before c rest := by
  unfold next?
  rw [verbatimAt?_restrict grammar hplace, literalAt?_restrict grammar hplace,
    blockAt?_restrict grammar hplace, lineAt?_restrict grammar before hplace]

theorem suffix_of_next? {grammar : Grammar} {before : Option Char} {c : Char}
    {rest after : List Char} {segment : Segment}
    (h : grammar.next? before c rest = some (segment, after)) : after <:+ c :: rest := by
  rcases grammar.exists_reads_or_stuck before c rest with ⟨found, left, htext, hreads⟩ | hstuck
  · obtain ⟨rfl, rfl⟩ := Prod.mk.inj (Option.some.inj (h.symm.trans (hreads.next?_eq htext)))
    exact ⟨_, htext.symm⟩
  · exact absurd (h.symm.trans (hstuck.next?_eq before)) (Option.some_ne_none _)

/-! ## Whole texts -/

theorem segmentFrom_restrict (grammar : Grammar) {text : List Char} (before : Option Char)
    (done : Array Segment) (place : List Char) (hplace : place <:+ text) :
    (grammar.restrict text).segmentFrom before done place =
      grammar.segmentFrom before done place := by
  fun_induction grammar.segmentFrom before done place with
  | case1 before done => rw [segmentFrom]
  | case2 before done c rest hnext =>
      rw [← grammar.next?_restrict before hplace] at hnext
      exact segmentFrom_of_next?_eq_none hnext done
  | case3 before done c rest segment after hnext ih =>
      -- The invariant of the scan: what is left is an end of the text.
      have hafter := (suffix_of_next? hnext).trans hplace
      rw [← grammar.next?_restrict before hplace] at hnext
      rw [segmentFrom_of_next?_eq_some hnext, ih hafter]

/-- Rules that cannot fire in a text do not change what is found in it. -/
theorem scan_restrict (grammar : Grammar) (code : String) :
    (grammar.restrict code.toList).scan code = grammar.scan code := by
  have hsegments : (grammar.restrict code.toList).segments code.toList =
      grammar.segments code.toList :=
    grammar.segmentFrom_restrict none #[] code.toList List.suffix_rfl
  simp only [scan, hsegments]

/-- Grammars with the same rules that can fire in a text find the same in it. -/
theorem scan_eq_of_restrict_eq {first second : Grammar} {code : String}
    (h : first.restrict code.toList = second.restrict code.toList) :
    first.scan code = second.scan code := by
  rw [← first.scan_restrict, h, second.scan_restrict]

/-- Without a line rule and a block rule no segment is a comment. -/
theorem Cuts.commentsFrom_eq_nil {grammar : Grammar} (hline : grammar.line = none)
    (hblock : grammar.block = none) {before : Option Char} {text rest : List Char}
    {segments : List Segment} (h : grammar.Cuts before text segments rest) (line : Nat) :
    Segment.commentsFrom line segments = [] := by
  induction h generalizing line with
  | nil => rfl
  | @cons before segment after segments rest hreads _ ih =>
      have hplain : segment.comment? line = none := by
        cases hreads with
        | block _ _ hlisted _ => simp [hblock] at hlisted
        | line _ _ _ hlisted _ _ => simp [hline] at hlisted
        | verbatim => rfl
        | literal => rfl
        | openLiteral => rfl
        | plain => rfl
      simp [Segment.commentsFrom, hplain, ih]

theorem scan_eq_nil {grammar : Grammar} (hline : grammar.line = none)
    (hblock : grammar.block = none) (code : String) : grammar.scan code = .ok [] := by
  obtain ⟨segments, rest, hcuts, rfl | hstuck⟩ := grammar.exists_cuts none code.toList
  · rw [IsSegmentation.scan_eq hcuts, hcuts.commentsFrom_eq_nil hline hblock]
  · obtain ⟨rule, body, hlisted, -, -⟩ := hstuck.opens
    simp [hblock] at hlisted

/-- A text in which no comment opens has none, whatever its literals look like. -/
theorem scan_eq_nil_of_absent {grammar : Grammar} {code : String}
    (hline : ∀ rule, grammar.line = some rule → ¬ rule.marker.chars <:+: code.toList)
    (hblock : ∀ rule, grammar.block = some rule → ¬ rule.opening.chars <:+: code.toList) :
    grammar.scan code = .ok [] := by
  rw [← scan_restrict]
  apply scan_eq_nil
  · simpa [restrict, Option.filter_eq_none_iff] using hline
  · simpa [restrict, Option.filter_eq_none_iff] using hblock

/-- A literal rule whose delimiter does not occur can be added. -/
theorem restrict_append_literal (grammar : Grammar) {rule : LiteralRule} {text : List Char}
    (h : rule.delimiter ∉ text) :
    restrict { grammar with literals := grammar.literals ++ [rule] } text =
      grammar.restrict text := by
  simp [restrict, h]

end Grammar

namespace Language

theorem restrict_fsharp {text : List Char} (hline : ¬ "//".toList <:+: text)
    (hoperator : ¬ "(*)".toList <:+: text) :
    fsharp.grammar.restrict text = ocaml.grammar.restrict text := by
  simp_all [Grammar.restrict, grammar, Option.filter, slashes, Token.chars]

/-- Rules that cannot fire are irrelevant. A text is scanned as with only those
rules whose first token occurs in it. So a text in which no comment opens has
none, the languages with slash comments agree on every text without a
backquote, and so do the two with parenthesis comments where neither a slash
comment nor the multiplication operator stands. -/
theorem scan_ignores_idle_rules (code : String) :
    (∀ grammar : Grammar, grammar.scan code = (grammar.restrict code.toList).scan code) ∧
    (∀ grammar : Grammar,
      (∀ rule, grammar.line = some rule → ¬ rule.marker.chars <:+: code.toList) →
      (∀ rule, grammar.block = some rule → ¬ rule.opening.chars <:+: code.toList) →
      grammar.scan code = .ok []) ∧
    ('\x60' ∉ code.toList →
      go.grammar.scan code = cFamily.scan code ∧
        javascript.grammar.scan code = cFamily.scan code) ∧
    (¬ "//".toList <:+: code.toList → ¬ "(*)".toList <:+: code.toList →
      fsharp.grammar.scan code = ocaml.grammar.scan code) := by
  refine ⟨fun grammar => (grammar.scan_restrict code).symm, ?_, ?_, ?_⟩
  · intro grammar hline hblock
    exact Grammar.scan_eq_nil_of_absent hline hblock
  · intro hquote
    constructor
    · exact Grammar.scan_eq_of_restrict_eq (cFamily.restrict_append_literal hquote)
    · exact Grammar.scan_eq_of_restrict_eq (cFamily.restrict_append_literal hquote)
  · intro hline hoperator
    exact Grammar.scan_eq_of_restrict_eq (restrict_fsharp hline hoperator)

theorem scan_ignores_idle_rules_sample :
    ('\x60' ∉ "f('\"') /* é\n*/ // g".toList ∧
      go.grammar.scan "f('\"') /* é\n*/ // g" = .ok [.block " é\n" 1, .single " g" 2] ∧
      javascript.grammar.scan "f('\"') /* é\n*/ // g" =
        .ok [.block " é\n" 1, .single " g" 2]) ∧
    (¬ "//".toList <:+: "f '\"' (* é\n*) 2".toList ∧
      ¬ "(*)".toList <:+: "f '\"' (* é\n*) 2".toList ∧
      fsharp.grammar.scan "f '\"' (* é\n*) 2" = .ok [.block " é\n" 1] ∧
      shell.grammar.scan "f '\"' (* é\n*) 2" = .ok []) := by
  obtain ⟨-, -, hagree, -⟩ := scan_ignores_idle_rules "f('\"') /* é\n*/ // g"
  obtain ⟨-, hnone, -, hsame⟩ := scan_ignores_idle_rules "f '\"' (* é\n*) 2"
  constructor
  · have hquote : '\x60' ∉ "f('\"') /* é\n*/ // g".toList := by decide
    have hscan : cFamily.scan "f('\"') /* é\n*/ // g" =
        .ok [.block " é\n" 1, .single " g" 2] := by
      decide +kernel
    obtain ⟨hgo, hjavascript⟩ := hagree hquote
    exact ⟨hquote, hgo.trans hscan, hjavascript.trans hscan⟩
  · have hline : ¬ "//".toList <:+: "f '\"' (* é\n*) 2".toList := by decide +kernel
    have hoperator : ¬ "(*)".toList <:+: "f '\"' (* é\n*) 2".toList := by decide +kernel
    have hscan : ocaml.grammar.scan "f '\"' (* é\n*) 2" = .ok [.block " é\n" 1] := by
      decide +kernel
    refine ⟨hline, hoperator, (hsame hline hoperator).trans hscan, hnone _ ?_ ?_⟩
    · rintro rule ⟨⟩
      decide +kernel
    · rintro rule ⟨⟩

end Language

end Marginalia
