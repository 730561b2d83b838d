import Marginalia.Proofs.Blocks

/-! # Nested comments

The inside of a nesting comment is a tree: text, and comments with text after
them. Written out, a tree has balanced marks, provided that its texts hold no
token and do not run into the token after them. The token that closes the
comment is then the one written after the tree.
-/

namespace Marginalia

namespace Token

/-- Neither token stands at the head of the other. -/
def Apart (token other : Token) : Prop :=
  ¬ token.chars <+: other.chars ∧ ¬ other.chars <+: token.chars

instance (token other : Token) : Decidable (token.Apart other) :=
  inferInstanceAs (Decidable (_ ∧ _))

/-- The token cannot start in front of the other one and reach into it. -/
def Clear (token next : Token) : Prop :=
  ∀ size < token.length, 0 < size →
    ¬ token.chars.drop size <+: next.chars ∧ ¬ next.chars <+: token.chars.drop size

instance (token next : Token) : Decidable (token.Clear next) :=
  inferInstanceAs (Decidable (∀ size < token.length, _))

theorem Apart.not_prefix_append {token other : Token} (h : token.Apart other)
    (after : List Char) : ¬ token.chars <+: other.chars ++ after := by
  intro hstands
  rcases List.prefix_or_prefix_of_prefix hstands (List.prefix_append other.chars after) with
    htoken | hother
  · exact h.1 htoken
  · exact h.2 hother

/-- A token that stands across the end of a text begins with all of that text. -/
theorem exists_take_of_prefix_append {token : Token} {front rest : List Char}
    (hstands : token.chars <+: front ++ rest) (hnot : ¬ token.chars <+: front) :
    ∃ size < token.length, front = token.chars.take size ∧ token.chars.drop size <+: rest := by
  have hfront : front <+: token.chars :=
    (List.prefix_or_prefix_of_prefix hstands (List.prefix_append front rest)).resolve_left hnot
  obtain ⟨tail, htail⟩ := hfront
  have hne : tail ≠ [] := by
    rintro rfl
    exact hnot ⟨[], by rw [← htail, List.append_assoc, List.append_nil, List.append_nil]⟩
  refine ⟨front.length, ?_, ?_, ?_⟩
  · have hpos := List.length_pos_iff.mpr hne
    rw [← length_chars, ← htail, List.length_append]
    omega
  · rw [← htail, List.take_left]
  · rw [← htail, List.drop_left]
    rw [← htail] at hstands
    exact (List.prefix_append_right_inj front).mp hstands

theorem Clear.not_prefix_append {token next : Token} (h : token.Clear next) {front : List Char}
    (hfront : front ≠ []) (hnot : ¬ token.chars <+: front) (after : List Char) :
    ¬ token.chars <+: front ++ (next.chars ++ after) := by
  intro hstands
  obtain ⟨size, hsize, hfrontSize, htail⟩ := exists_take_of_prefix_append hstands hnot
  have hpos : 0 < size := by
    apply Nat.pos_of_ne_zero
    rintro rfl
    exact hfront (hfrontSize.trans (List.take_zero))
  obtain ⟨hinside, hacross⟩ := h size hsize hpos
  rcases List.prefix_or_prefix_of_prefix htail (List.prefix_append next.chars after) with
    hshort | hlong
  · exact hinside hshort
  · exact hacross hlong

end Token

/-- The inside of a nesting comment: text, or text in front of a comment and
what follows that comment. -/
inductive Nest where
  | text (chunk : List Char)
  | comment (chunk : List Char) (inner rest : Nest)
  deriving Repr

namespace BlockRule

/-- A text that holds neither token and does not end as the opening token
starts. -/
structure Chunk (rule : BlockRule) (chunk : List Char) : Prop where
  noOpening : ¬ rule.opening.chars <:+: chunk
  noClosing : ¬ rule.closing.chars <:+: chunk
  edge : chunk.getLast? ≠ some rule.opening.first

/-- Tokens that cannot be confused with one another inside a comment. -/
structure Nestable (rule : BlockRule) : Prop where
  apart : rule.closing.Apart rule.opening
  closingClear : rule.closing.Clear rule.closing
  openingClear : rule.closing.Clear rule.opening
  pair : rule.opening.length = 2

theorem Chunk.tail {rule : BlockRule} {c : Char} {rest : List Char}
    (h : rule.Chunk (c :: rest)) : rule.Chunk rest := by
  have hinfix : rest <:+: c :: rest := (List.suffix_cons c rest).isInfix
  refine ⟨fun hopening => h.noOpening (hopening.trans hinfix),
    fun hclosing => h.noClosing (hclosing.trans hinfix), ?_⟩
  intro hlast
  apply h.edge
  rw [List.getLast?_cons, hlast]
  rfl

/-- No closing token starts in a chunk that a token follows. -/
theorem Chunk.not_closing {rule : BlockRule} {chunk : List Char} (h : rule.Chunk chunk)
    (hne : chunk ≠ []) {next : Token} (hclear : rule.closing.Clear next) (after : List Char) :
    ¬ rule.closing.chars <+: chunk ++ (next.chars ++ after) :=
  hclear.not_prefix_append hne (fun hstands => h.noClosing hstands.isInfix) after

/-- No opening token starts in a chunk, whatever follows it. -/
theorem Chunk.not_opening {rule : BlockRule} (hpair : rule.opening.length = 2)
    {chunk : List Char} (h : rule.Chunk chunk) (hne : chunk ≠ []) (after : List Char) :
    ¬ rule.opening.chars <+: chunk ++ after := by
  intro hstands
  obtain ⟨size, hsize, hchunk, -⟩ := Token.exists_take_of_prefix_append hstands
    fun hstands => h.noOpening hstands.isInfix
  -- the opening token has two characters, so it could start in the last one only
  match size with
  | 0 => exact hne (hchunk.trans (List.take_zero))
  | 1 => exact h.edge (by rw [hchunk]; rfl)
  | size + 2 => omega

theorem Chunk.marks {rule : BlockRule} (hrule : rule.Nestable) {chunk : List Char}
    (h : rule.Chunk chunk) {next : Token} (hclear : rule.closing.Clear next)
    (after : List Char) :
    rule.Marks (chunk.map .other) (chunk ++ (next.chars ++ after)) (next.chars ++ after) := by
  induction chunk with
  | nil => exact .nil
  | cons c rest ih =>
      have hne : c :: rest ≠ [] := List.cons_ne_nil _ _
      exact .other (h.not_closing hne hclear after) (h.not_opening hrule.pair hne _) (ih h.tail)

end BlockRule

namespace Nest

/-- The tree, written with the tokens of a rule. -/
def render (rule : BlockRule) : Nest → List Char
  | .text chunk => chunk
  | .comment chunk inner rest =>
      chunk ++ (rule.opening.chars ++
        (inner.render rule ++ (rule.closing.chars ++ rest.render rule)))

/-- Every text of the tree is a chunk. -/
def Fits (rule : BlockRule) : Nest → Prop
  | .text chunk => rule.Chunk chunk
  | .comment chunk inner rest => rule.Chunk chunk ∧ inner.Fits rule ∧ rest.Fits rule

def marks : Nest → List Mark
  | .text chunk => chunk.map .other
  | .comment chunk inner rest =>
      chunk.map .other ++ .opening :: (inner.marks ++ .closing :: rest.marks)

theorem balanced_map_other_append {depth : Nat} {chunk : List Char} {more : List Mark} :
    Balanced depth (chunk.map .other ++ more) ↔ Balanced depth more := by
  induction chunk with
  | nil => exact Iff.rfl
  | cons c rest ih => rw [List.map_cons, List.cons_append, balanced_other_iff, ih]

/-- A tree leaves the depth as it was. -/
theorem balanced_marks_append {depth : Nat} {nest : Nest} {more : List Mark} :
    Balanced depth (nest.marks ++ more) ↔ Balanced depth more := by
  induction nest generalizing depth more with
  | text chunk => exact balanced_map_other_append
  | comment chunk inner rest ihInner ihRest =>
      rw [marks, List.append_assoc, balanced_map_other_append, List.cons_append,
        balanced_opening_iff, List.append_assoc, ihInner, List.cons_append,
        balanced_succ_closing_iff, ihRest]

/-- A tree in front of a closing token is cut into its own marks. -/
theorem marks_render {rule : BlockRule} (hrule : rule.Nestable) {nest : Nest}
    (h : nest.Fits rule) (after : List Char) :
    rule.Marks nest.marks (nest.render rule ++ (rule.closing.chars ++ after))
      (rule.closing.chars ++ after) := by
  induction nest generalizing after with
  | text chunk => exact BlockRule.Chunk.marks hrule h hrule.closingClear after
  | comment chunk inner rest ihInner ihRest =>
      obtain ⟨hchunk, hinner, hrest⟩ := h
      have hopening := hrule.apart.not_prefix_append (inner.render rule ++
        (rule.closing.chars ++ (rest.render rule ++ (rule.closing.chars ++ after))))
      have htail := (ihInner hinner _).append (.closing (ihRest hrest after))
      have hmarks := (BlockRule.Chunk.marks hrule hchunk hrule.openingClear _).append
        (.opening hopening htail)
      simpa only [render, marks, List.append_assoc] using hmarks

theorem closes_render {rule : BlockRule} (hrule : rule.Nestable) (hnesting : rule.nesting = true)
    {nest : Nest} (h : nest.Fits rule) (after : List Char) :
    rule.Closes (nest.render rule) after := by
  refine ⟨?_, fun _ => ⟨nest.marks, ?_, marks_render hrule h after⟩⟩
  · intro hflat
    exact absurd (hnesting.symm.trans hflat) Bool.noConfusion
  · rw [← List.append_nil nest.marks, balanced_marks_append, balanced_nil_iff]

end Nest

/-- Without nesting, a text without the closing token ends where that token is
written. -/
theorem BlockRule.closes_of_not_infix {rule : BlockRule} (hflat : rule.nesting = false)
    (hclear : rule.closing.Clear rule.closing) {body : List Char}
    (h : ¬ rule.closing.chars <:+: body) (after : List Char) : rule.Closes body after := by
  refine ⟨?_, ?_⟩
  · intro _ other rest heq
    rcases Nat.lt_or_ge other.length body.length with hshort | hlong
    · obtain ⟨tail, hne, rfl, hstands⟩ := exists_earlier_closing heq hshort
      have hnot : ¬ rule.closing.chars <+: tail := fun hstands =>
        h (hstands.isInfix.trans (List.suffix_append other tail).isInfix)
      exact absurd hstands (hclear.not_prefix_append hne hnot after)
    · exact hlong
  · intro hnesting
    exact absurd (hnesting.symm.trans hflat) Bool.noConfusion

end Marginalia
