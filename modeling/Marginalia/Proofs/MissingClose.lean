import Mathlib.Data.List.Infix
import Marginalia.Proofs.LiteralBodies

/-! # A missing closing token

A text that cannot be scanned lacks one closing token. The text in front of the
comment that never closes is scanned on its own, and with the closing token
written at the end the comment is read, after the same segments as before. This
asks that no token starts at or before an opening token and ends in the closing
token written last.
-/

namespace Marginalia

/-- Without nesting, a comment never closes if no closing token follows at all. -/
theorem BlockRule.Dangles.not_infix {rule : BlockRule} (hflat : rule.nesting = false)
    {body : List Char} (h : rule.Dangles body) : ¬ rule.closing.chars <:+: body := by
  rintro ⟨front, after, htext⟩
  rw [List.append_assoc] at htext
  obtain ⟨place, -, hfound⟩ := rule.closing.exists_indexFrom?_le 0 front after
  have hclose : rule.close? body = some place := by
    rw [close?, hflat, if_neg Bool.false_ne_true, ← htext, hfound]
  obtain ⟨inside, rest, hbody, -, hcloses⟩ := close?_eq_some_iff.mp hclose
  exact h inside rest hcloses hbody

namespace Grammar

/-- Segments stay as they are when the text after them is replaced by one that
starts with the same character and in which no token reaches further. -/
theorem Cuts.narrow {grammar : Grammar} {before : Option Char} {text new old : List Char}
    {segments : List Segment} (h : grammar.Cuts before text segments old)
    (hnarrow : grammar.Narrows new old) (hhead : new.head? = old.head?) (hold : old ≠ []) :
    grammar.Cuts before (Segment.sources segments ++ new) segments new := by
  induction h with
  | nil => exact .nil
  | @cons before segment after segments old hreads htail ih =>
      have hafter := htail.text_eq
      rw [Segment.sources_cons, List.append_assoc]
      refine .cons ?_ (ih hnarrow hhead hold)
      have hwider := hnarrow.append (Segment.sources segments)
      rw [← hafter] at hwider
      refine hreads.narrow hwider ?_ ?_ (fun _ _ _ => id) (fun _ => id)
      · -- both texts start with the same character, so both lines end here or neither does
        intro hstops c rest hnew
        have hfirst : after.head? = some c := by
          rw [hafter, List.head?_append, ← hhead, ← List.head?_append, hnew, List.head?_cons]
        obtain ⟨tail, htail⟩ := List.head?_eq_some_iff.mp hfirst
        exact hstops c tail htail
      · -- an open literal would have taken the old text too
        rintro rule body rfl
        cases hreads with
        | openLiteral => exact absurd (List.append_eq_nil_iff.mp hafter.symm).2 hold

/-- No token goes on from a whole opening token, or from text in front of one,
and ends inside a closing token. -/
def Closable (grammar : Grammar) (rule : BlockRule) : Prop :=
  ∀ token ∈ grammar.tokens, ∀ size < token.length,
    rule.opening.chars <:+: token.chars.take size →
      ¬ token.chars.drop size <+: rule.closing.chars

instance (grammar : Grammar) (rule : BlockRule) : Decidable (grammar.Closable rule) :=
  inferInstanceAs (Decidable (∀ token ∈ grammar.tokens, ∀ size < token.length, _))

/-- Where a comment is open, a closing token at the end of the text lets no token
reach further than before. -/
theorem Closable.narrows {grammar : Grammar} {rule : BlockRule} (h : grammar.Closable rule)
    (body : List Char) :
    grammar.Narrows (rule.opening.chars ++ (body ++ rule.closing.chars))
      (rule.opening.chars ++ body) := by
  intro token htoken front hstands
  by_contra hnot
  rw [← List.append_assoc, ← List.append_assoc, List.append_assoc front] at hstands
  obtain ⟨size, hsize, hfront, htail⟩ := Token.exists_take_of_prefix_append hstands hnot
  refine h token htoken size hsize ?_ htail
  rw [← hfront]
  exact ⟨front, body, List.append_assoc ..⟩

/-- With the closing token written at the end, the comment that never closed is
the last segment. -/
theorem Closable.isSegmentation {grammar : Grammar} {rule : BlockRule}
    (h : grammar.Closable rule) (hrule : grammar.block = some rule)
    {text body : List Char} {segments : List Segment}
    (hcuts : grammar.Cuts none text segments (rule.opening.chars ++ body))
    (hstuck : grammar.Stuck (rule.opening.chars ++ body)) (hcloses : rule.Closes body []) :
    grammar.IsSegmentation (text ++ rule.closing.chars) (segments ++ [.block rule body]) := by
  have hnarrow := h.narrows body
  have hsource : (Segment.block rule body).source ++ [] =
      rule.opening.chars ++ (body ++ rule.closing.chars) := by
    rw [Segment.source_block_append, List.append_nil]
  have hreads (before : Option Char) : grammar.Reads before (.block rule body) [] := by
    refine .block ?_ ?_ hrule hcloses
    · rw [hsource]
      exact @Narrows.noVerbatim _ _ _ hnarrow [] hstuck.noVerbatim
    · rw [hsource]
      exact hstuck.noLiteral.of_head?_eq rfl
  have hearlier := hcuts.narrow hnarrow rfl (List.cons_ne_nil _ _)
  rw [← List.append_assoc, ← List.append_assoc, List.append_assoc _ _ body, ← hcuts.text_eq,
    ← hsource] at hearlier
  exact hearlier.append (.cons (hreads _) .nil)

end Grammar

namespace Language

theorem closable {language : Language} {rule : BlockRule}
    (hrule : language.grammar.block = some rule) : language.grammar.Closable rule := by
  have hall : ∀ rule ∈ language.grammar.block.toList, language.grammar.Closable rule := by
    cases language <;> decide
  exact hall rule (by rw [hrule]; exact List.mem_singleton_self _)

/-- A text that cannot be scanned in a language without nesting lacks exactly one
closing token. It is some text, an opening token and a body without closing
token; the text in front is scanned on its own, the failure names the line after
it, and with the closing token written at the end the body is one more comment. -/
theorem scan_append_closing (language : Language) {rule : BlockRule}
    (hrule : language.grammar.block = some rule) (hflat : rule.nesting = false)
    {code : String} {failure : UnterminatedComment}
    (hscan : language.grammar.scan code = .error failure) :
    ∃ pre body comments,
      code = pre ++ rule.opening.toString ++ body ∧
      ¬ rule.closing.chars <:+: body.toList ∧
      language.grammar.scan pre = .ok comments ∧
      failure.line = 1 + pre.toList.count '\n' ∧
      language.grammar.scan (code ++ rule.closing.toString) =
        .ok (comments ++ [.block body failure.line]) := by
  obtain ⟨segments, rest, hcuts, hstuck, hline⟩ := Grammar.scan_eq_error_iff.mp hscan
  obtain ⟨rule', body, hrule', rfl, hdangles⟩ := hstuck.opens
  obtain rfl := Option.some.inj (hrule.symm.trans hrule')
  have hbody := hdangles.not_infix hflat
  have hcloses := BlockRule.closes_of_not_infix hflat (language.separable.clear rule hrule) hbody []
  have hpre := hcuts.truncate
  have hclosed := (closable hrule).isSegmentation hrule hcuts hstuck hcloses
  refine ⟨String.ofList (Segment.sources segments), String.ofList body,
    Segment.commentsFrom 1 segments, ?_, ?_, ?_, ?_, ?_⟩
  · rw [← String.toList_inj, hcuts.text_eq]
    simp [Token.toString]
  · rwa [String.toList_ofList]
  · rw [← String.toList_ofList (l := Segment.sources segments)] at hpre
    exact Grammar.IsSegmentation.scan_eq hpre
  · rw [hline, String.toList_ofList]
  · have hcode : (code ++ rule.closing.toString).toList = code.toList ++ rule.closing.chars := by
      simp [Token.toString]
    rw [← hcode] at hclosed
    rw [hclosed.scan_eq, Segment.commentsFrom_append, ← hline]
    rfl

/-- The body ends as the closing token starts, and an operator, a literal and a
closed comment stand in front. -/
theorem scan_append_closing_fsharp :
    fsharp.grammar.scan "(*)\"(*\"(* é\n*)(*) (* b\n*" = .error ⟨2⟩ ∧
      fsharp.grammar.scan "(*)\"(*\"(* é\n*)(*) (* b\n**)" =
        .ok [.block " é\n" 1, .block " b\n*" 2] ∧
      ∃ pre body comments,
        "(*)\"(*\"(* é\n*)(*) (* b\n*" = pre ++ "(*" ++ body ∧
        ¬ ['*', ')'] <:+: body.toList ∧
        fsharp.grammar.scan pre = .ok comments ∧
        2 = 1 + pre.toList.count '\n' ∧
        fsharp.grammar.scan "(*)\"(*\"(* é\n*)(*) (* b\n**)" =
          .ok (comments ++ [.block body 2]) := by
  have hscan : fsharp.grammar.scan "(*)\"(*\"(* é\n*)(*) (* b\n*" = .error ⟨2⟩ := by
    decide +kernel
  exact ⟨hscan, by decide +kernel, scan_append_closing fsharp rfl rfl hscan⟩

end Language

end Marginalia
