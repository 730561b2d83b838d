import Marginalia.Proofs.Tokens

/-! # Where block comments end

A block comment without nesting ends at the first closing token. With nesting,
its inside is cut into marks from the left, and it ends at the closing token
before which opening and closing marks balance.
-/

namespace Marginalia

/-- A piece of the inside of a nesting comment: a token, or a character at which
no token stands. -/
inductive Mark where
  | closing
  | opening
  | other (c : Char)
  deriving DecidableEq, Repr

/-- Closing marks never outnumber the opening ones and the `depth` comments
open before them, and use them up in the end. -/
structure Balanced (depth : Nat) (marks : List Mark) : Prop where
  guarded : ∀ front, front <+: marks → front.count .closing ≤ depth + front.count .opening
  settled : marks.count .closing = depth + marks.count .opening

theorem balanced_nil_iff {depth : Nat} : Balanced depth [] ↔ depth = 0 := by
  constructor
  · intro h
    exact h.settled.symm
  · rintro rfl
    refine ⟨?_, rfl⟩
    intro front hfront
    rw [List.prefix_nil.mp hfront]
    exact Nat.le_refl _

/-- Balance after one mark, when the mark moves the depth from `depth` to
`next`. -/
theorem balanced_cons_of_count {depth next : Nat} {mark : Mark} {marks : List Mark}
    (hmark : next + [mark].count .closing = depth + [mark].count .opening) :
    Balanced depth (mark :: marks) ↔ Balanced next marks := by
  have hcount (front : List Mark) (kind : Mark) :
      (mark :: front).count kind = [mark].count kind + front.count kind := by
    rw [← List.count_append, List.singleton_append]
  constructor
  · intro h
    refine ⟨?_, ?_⟩
    · intro front hfront
      have hguard := h.guarded (mark :: front) (List.cons_prefix_cons.mpr ⟨rfl, hfront⟩)
      rw [hcount front .closing, hcount front .opening] at hguard
      omega
    · have hsettled := h.settled
      rw [hcount marks .closing, hcount marks .opening] at hsettled
      omega
  · intro h
    refine ⟨?_, ?_⟩
    · intro front hfront
      rcases List.prefix_cons_iff.mp hfront with rfl | ⟨tail, rfl, htail⟩
      · exact Nat.zero_le _
      · have hguard := h.guarded tail htail
        rw [hcount tail .closing, hcount tail .opening]
        omega
    · have hsettled := h.settled
      rw [hcount marks .closing, hcount marks .opening]
      omega

theorem not_balanced_zero_closing {marks : List Mark} :
    ¬ Balanced 0 (.closing :: marks) := by
  intro h
  have hguard := h.guarded [.closing] (List.cons_prefix_cons.mpr ⟨rfl, List.nil_prefix⟩)
  exact absurd hguard (by decide)

theorem balanced_succ_closing_iff {depth : Nat} {marks : List Mark} :
    Balanced (depth + 1) (.closing :: marks) ↔ Balanced depth marks :=
  balanced_cons_of_count rfl

theorem balanced_opening_iff {depth : Nat} {marks : List Mark} :
    Balanced depth (.opening :: marks) ↔ Balanced (depth + 1) marks :=
  balanced_cons_of_count rfl

theorem balanced_other_iff {depth : Nat} {c : Char} {marks : List Mark} :
    Balanced depth (.other c :: marks) ↔ Balanced depth marks := by
  apply balanced_cons_of_count
  simp

namespace BlockRule

/-- The characters of a sequence of marks. -/
def spell (rule : BlockRule) (marks : List Mark) : List Char :=
  marks.flatMap fun
    | .closing => rule.closing.chars
    | .opening => rule.opening.chars
    | .other c => [c]

@[simp] theorem spell_cons_closing (rule : BlockRule) (marks : List Mark) :
    rule.spell (.closing :: marks) = rule.closing.chars ++ rule.spell marks := rfl

@[simp] theorem spell_cons_opening (rule : BlockRule) (marks : List Mark) :
    rule.spell (.opening :: marks) = rule.opening.chars ++ rule.spell marks := rfl

@[simp] theorem spell_cons_other (rule : BlockRule) (c : Char) (marks : List Mark) :
    rule.spell (.other c :: marks) = c :: rule.spell marks := rfl

/-- Cuts a text into marks up to `rest`. At each place the closing token is
tested first, then the opening one, and a token is passed over whole. -/
inductive Marks (rule : BlockRule) : List Mark → List Char → List Char → Prop where
  | nil {rest : List Char} : Marks rule [] rest rest
  | closing {marks : List Mark} {after rest : List Char} (tail : Marks rule marks after rest) :
      Marks rule (.closing :: marks) (rule.closing.chars ++ after) rest
  | opening {marks : List Mark} {after rest : List Char}
      (notClosing : ¬ rule.closing.chars <+: rule.opening.chars ++ after)
      (tail : Marks rule marks after rest) :
      Marks rule (.opening :: marks) (rule.opening.chars ++ after) rest
  | other {c : Char} {marks : List Mark} {after rest : List Char}
      (notClosing : ¬ rule.closing.chars <+: c :: after)
      (notOpening : ¬ rule.opening.chars <+: c :: after)
      (tail : Marks rule marks after rest) :
      Marks rule (.other c :: marks) (c :: after) rest

namespace Marks

theorem append {rule : BlockRule} {first second : List Mark} {text middle rest : List Char}
    (hfirst : rule.Marks first text middle) (hsecond : rule.Marks second middle rest) :
    rule.Marks (first ++ second) text rest := by
  induction hfirst with
  | nil => exact hsecond
  | closing _ ih => exact .closing (ih hsecond)
  | opening hclosing _ ih => exact .opening hclosing (ih hsecond)
  | other hclosing hopening _ ih => exact .other hclosing hopening (ih hsecond)

/-- The marks lose nothing of the text in front of the rest. -/
theorem spell_append {rule : BlockRule} {marks : List Mark} {text rest : List Char}
    (h : rule.Marks marks text rest) : text = rule.spell marks ++ rest := by
  induction h with
  | nil => rfl
  | closing _ ih => rw [spell_cons_closing, List.append_assoc, ← ih]
  | opening _ _ ih => rw [spell_cons_opening, List.append_assoc, ← ih]
  | other _ _ _ ih => rw [spell_cons_other, List.cons_append, ← ih]

/-- Where a closing token stands, the cut stops or goes on with a closing mark. -/
theorem at_closing {rule : BlockRule} {marks : List Mark} {after rest : List Char}
    (h : rule.Marks marks (rule.closing.chars ++ after) rest) :
    (marks = [] ∧ rest = rule.closing.chars ++ after) ∨
      ∃ tail, marks = .closing :: tail ∧ rule.Marks tail after rest := by
  generalize htext : rule.closing.chars ++ after = text at h
  cases h with
  | nil => exact .inl ⟨rfl, rfl⟩
  | closing htail =>
      obtain rfl := List.append_cancel_left htext
      exact .inr ⟨_, rfl, htail⟩
  | opening hclosing _ => exact absurd ⟨after, htext⟩ hclosing
  | other hclosing _ _ => exact absurd ⟨after, htext⟩ hclosing

theorem at_opening {rule : BlockRule} {marks : List Mark} {after rest : List Char}
    (hclosing : ¬ rule.closing.chars <+: rule.opening.chars ++ after)
    (h : rule.Marks marks (rule.opening.chars ++ after) rest) :
    (marks = [] ∧ rest = rule.opening.chars ++ after) ∨
      ∃ tail, marks = .opening :: tail ∧ rule.Marks tail after rest := by
  generalize htext : rule.opening.chars ++ after = text at h
  cases h with
  | nil => exact .inl ⟨rfl, rfl⟩
  | closing _ => exact absurd ⟨_, htext.symm⟩ hclosing
  | opening _ htail =>
      obtain rfl := List.append_cancel_left htext
      exact .inr ⟨_, rfl, htail⟩
  | other _ hopening _ => exact absurd ⟨after, htext⟩ hopening

theorem at_other {rule : BlockRule} {c : Char} {marks : List Mark} {after rest : List Char}
    (hclosing : ¬ rule.closing.chars <+: c :: after)
    (hopening : ¬ rule.opening.chars <+: c :: after)
    (h : rule.Marks marks (c :: after) rest) :
    (marks = [] ∧ rest = c :: after) ∨
      ∃ tail, marks = .other c :: tail ∧ rule.Marks tail after rest := by
  generalize htext : c :: after = text at h
  cases h with
  | nil => exact .inl ⟨rfl, rfl⟩
  | closing _ => exact absurd ⟨_, htext.symm⟩ hclosing
  | opening _ _ => exact absurd ⟨_, htext.symm⟩ hopening
  | other _ _ htail =>
      obtain ⟨rfl, rfl⟩ := List.cons.inj htext
      exact .inr ⟨_, rfl, htail⟩

end Marks

/-- Depth counting finds the closing token in front of which the marks balance
the comments that are open. -/
theorem balanceFrom?_eq_some_iff {rule : BlockRule} {inner offset place : Nat}
    {text : List Char} :
    rule.balanceFrom? inner offset text = some place ↔
      ∃ marks after, rule.Marks marks text (rule.closing.chars ++ after) ∧
        place = offset + (rule.spell marks).length ∧ Balanced inner marks := by
  fun_induction balanceFrom? rule inner offset text with
  | case1 inner offset =>
      refine iff_of_false (Option.some_ne_none _).symm ?_
      rintro ⟨marks, after, hmarks, -⟩
      have hnil := List.append_eq_nil_iff.mp hmarks.spell_append.symm
      exact rule.closing.chars_ne_nil (List.append_eq_nil_iff.mp hnil.2).1
  | case2 offset c rest after hclose =>
      rw [Token.strip?_eq_some_iff.mp hclose]
      constructor
      · intro h
        obtain rfl := Option.some.inj h
        exact ⟨[], after, .nil, rfl, balanced_nil_iff.mpr rfl⟩
      · rintro ⟨marks, tail, hmarks, rfl, hbalanced⟩
        rcases hmarks.at_closing with ⟨rfl, -⟩ | ⟨more, rfl, -⟩
        · rfl
        · exact absurd hbalanced not_balanced_zero_closing
  | case3 offset c rest after hclose outer ih =>
      rw [ih, Token.strip?_eq_some_iff.mp hclose]
      constructor
      · rintro ⟨marks, tail, hmarks, rfl, hbalanced⟩
        refine ⟨.closing :: marks, tail, .closing hmarks, ?_,
          balanced_succ_closing_iff.mpr hbalanced⟩
        simp only [spell_cons_closing, List.length_append, Token.length_chars]
        omega
      · rintro ⟨marks, tail, hmarks, rfl, hbalanced⟩
        rcases hmarks.at_closing with ⟨rfl, -⟩ | ⟨more, rfl, hmore⟩
        · exact absurd (balanced_nil_iff.mp hbalanced) (Nat.succ_ne_zero _)
        · refine ⟨more, tail, hmore, ?_, balanced_succ_closing_iff.mp hbalanced⟩
          simp only [spell_cons_closing, List.length_append, Token.length_chars]
          omega
  | case4 inner offset c rest hclose after hopen ih =>
      have hclosing := Token.strip?_eq_none_iff.mp hclose
      rw [Token.strip?_eq_some_iff.mp hopen] at hclosing ⊢
      rw [ih]
      constructor
      · rintro ⟨marks, tail, hmarks, rfl, hbalanced⟩
        refine ⟨.opening :: marks, tail, .opening hclosing hmarks, ?_,
          balanced_opening_iff.mpr hbalanced⟩
        simp only [spell_cons_opening, List.length_append, Token.length_chars]
        omega
      · rintro ⟨marks, tail, hmarks, rfl, hbalanced⟩
        rcases hmarks.at_opening hclosing with ⟨-, htail⟩ | ⟨more, rfl, hmore⟩
        · -- the cut ends in front of a closing token, and none stands here
          exact absurd ⟨tail, htail⟩ hclosing
        · refine ⟨more, tail, hmore, ?_, balanced_opening_iff.mp hbalanced⟩
          simp only [spell_cons_opening, List.length_append, Token.length_chars]
          omega
  | case5 inner offset c rest hclose hopen ih =>
      have hclosing := Token.strip?_eq_none_iff.mp hclose
      have hopening := Token.strip?_eq_none_iff.mp hopen
      rw [ih]
      constructor
      · rintro ⟨marks, tail, hmarks, rfl, hbalanced⟩
        refine ⟨.other c :: marks, tail, .other hclosing hopening hmarks, ?_,
          balanced_other_iff.mpr hbalanced⟩
        simp only [spell_cons_other, List.length_cons]
        omega
      · rintro ⟨marks, tail, hmarks, rfl, hbalanced⟩
        rcases hmarks.at_other hclosing hopening with ⟨-, htail⟩ | ⟨more, rfl, hmore⟩
        · exact absurd ⟨tail, htail⟩ hclosing
        · refine ⟨more, tail, hmore, ?_, balanced_other_iff.mp hbalanced⟩
          simp only [spell_cons_other, List.length_cons]
          omega

/-! The steps of depth counting, for texts given by the token in front. -/

theorem balanceFrom?_closing (rule : BlockRule) (outer offset : Nat) (after : List Char) :
    rule.balanceFrom? (outer + 1) offset (rule.closing.chars ++ after) =
      rule.balanceFrom? outer (offset + rule.closing.length) after := by
  have hclose : rule.closing.strip? (rule.closing.chars ++ after) = some after :=
    Token.strip?_eq_some_iff.mpr rfl
  rw [Token.chars, List.cons_append] at hclose ⊢
  rw [balanceFrom?]
  split
  next after' hafter =>
    obtain rfl := Option.some.inj (hclose.symm.trans hafter)
    rfl
  next hnone => exact absurd (hnone.symm.trans hclose) (Option.some_ne_none _).symm

theorem balanceFrom?_closing_zero (rule : BlockRule) (offset : Nat) (after : List Char) :
    rule.balanceFrom? 0 offset (rule.closing.chars ++ after) = some offset :=
  balanceFrom?_eq_some_iff.mpr ⟨[], after, .nil, rfl, balanced_nil_iff.mpr rfl⟩

theorem balanceFrom?_opening {rule : BlockRule} {after : List Char}
    (hclosing : ¬ rule.closing.chars <+: rule.opening.chars ++ after) (inner offset : Nat) :
    rule.balanceFrom? inner offset (rule.opening.chars ++ after) =
      rule.balanceFrom? (inner + 1) (offset + rule.opening.length) after := by
  have hopen : rule.opening.strip? (rule.opening.chars ++ after) = some after :=
    Token.strip?_eq_some_iff.mpr rfl
  rw [← Token.strip?_eq_none_iff] at hclosing
  rw [Token.chars, List.cons_append] at hopen hclosing ⊢
  rw [balanceFrom?]
  split
  next after' hafter => exact absurd (hafter.symm.trans hclosing) (Option.some_ne_none _)
  next =>
    split
    next after' hafter =>
      obtain rfl := Option.some.inj (hopen.symm.trans hafter)
      rfl
    next hnone => exact absurd (hnone.symm.trans hopen) (Option.some_ne_none _).symm

theorem balanceFrom?_other {rule : BlockRule} {c : Char} {rest : List Char}
    (hclosing : ¬ rule.closing.chars <+: c :: rest)
    (hopening : ¬ rule.opening.chars <+: c :: rest) (inner offset : Nat) :
    rule.balanceFrom? inner offset (c :: rest) = rule.balanceFrom? inner (offset + 1) rest := by
  rw [← Token.strip?_eq_none_iff] at hclosing hopening
  rw [balanceFrom?]
  split
  next after hafter => exact absurd (hafter.symm.trans hclosing) (Option.some_ne_none _)
  next =>
    split
    next after hafter => exact absurd (hafter.symm.trans hopening) (Option.some_ne_none _)
    next => rfl

/-- The closing token in front of `after` ends the comment: the first one
without nesting, with nesting the one that balances the marks of the body. -/
structure Closes (rule : BlockRule) (body after : List Char) : Prop where
  first : rule.nesting = false → ∀ other rest,
    body ++ (rule.closing.chars ++ after) = other ++ (rule.closing.chars ++ rest) →
      body.length ≤ other.length
  balanced : rule.nesting = true → ∃ marks, Balanced 0 marks ∧
    rule.Marks marks (body ++ (rule.closing.chars ++ after)) (rule.closing.chars ++ after)

/-- A closing token in front of the end of the body starts inside the body. -/
theorem exists_earlier_closing {rule : BlockRule} {body after other rest : List Char}
    (heq : body ++ (rule.closing.chars ++ after) = other ++ (rule.closing.chars ++ rest))
    (hshort : other.length < body.length) :
    ∃ tail, tail ≠ [] ∧ body = other ++ tail ∧
      rule.closing.chars <+: tail ++ (rule.closing.chars ++ after) := by
  obtain ⟨tail, rfl⟩ : other <+: body :=
    List.prefix_of_prefix_length_le ⟨_, heq.symm⟩ (List.prefix_append _ _) (Nat.le_of_lt hshort)
  rw [List.append_assoc] at heq
  refine ⟨tail, ?_, rfl, rest, (List.append_cancel_left heq).symm⟩
  rintro rfl
  rw [List.append_nil] at hshort
  exact Nat.lt_irrefl _ hshort

theorem close?_eq_some_iff {rule : BlockRule} {place : Nat} {text : List Char} :
    rule.close? text = some place ↔
      ∃ body after, text = body ++ (rule.closing.chars ++ after) ∧ place = body.length ∧
        rule.Closes body after := by
  unfold close?
  split
  next hnesting =>
    rw [balanceFrom?_eq_some_iff]
    constructor
    · rintro ⟨marks, after, hmarks, rfl, hbalanced⟩
      obtain rfl := hmarks.spell_append
      refine ⟨rule.spell marks, after, rfl, Nat.zero_add _, ?_, fun _ => ⟨marks, hbalanced, hmarks⟩⟩
      intro hflat
      exact absurd (hnesting.symm.trans hflat) Bool.noConfusion
    · rintro ⟨body, after, rfl, rfl, hcloses⟩
      obtain ⟨marks, hbalanced, hmarks⟩ := hcloses.balanced hnesting
      have hbody := List.append_cancel_right hmarks.spell_append
      exact ⟨marks, after, hmarks, by rw [Nat.zero_add, ← hbody], hbalanced⟩
  next hnesting =>
    have hflat := Bool.eq_false_iff.mpr hnesting
    rw [Token.indexFrom?_eq_some_iff]
    constructor
    · rintro ⟨body, after, rfl, rfl, hleast⟩
      exact ⟨body, after, rfl, Nat.zero_add _, fun _ => hleast, fun h => absurd h hnesting⟩
    · rintro ⟨body, after, rfl, rfl, hcloses⟩
      exact ⟨body, after, rfl, (Nat.zero_add _).symm, hcloses.first hflat⟩

/-- A block comment is read up to the token that closes it. -/
theorem read?_eq_some_iff {rule : BlockRule} {text : List Char} {found : Segment × List Char} :
    rule.read? text = some found ↔
      ∃ body, found.1 = .block rule body ∧
        text = body ++ (rule.closing.chars ++ found.2) ∧ rule.Closes body found.2 := by
  unfold read?
  rw [Option.map_eq_some_iff]
  constructor
  · rintro ⟨place, hplace, rfl⟩
    obtain ⟨body, after, rfl, rfl, hcloses⟩ := close?_eq_some_iff.mp hplace
    simp only [← Token.length_chars, List.take_left, ← List.drop_drop, List.drop_left]
    exact ⟨body, rfl, rfl, hcloses⟩
  · rintro ⟨body, hsegment, rfl, hcloses⟩
    refine ⟨body.length, close?_eq_some_iff.mpr ⟨body, found.2, rfl, rfl, hcloses⟩, ?_⟩
    simp only [← Token.length_chars, List.take_left, ← List.drop_drop, List.drop_left]
    exact Prod.ext hsegment.symm rfl

/-- No closing token of the text ends the comment. -/
def Dangles (rule : BlockRule) (text : List Char) : Prop :=
  ∀ body after, rule.Closes body after → text ≠ body ++ (rule.closing.chars ++ after)

theorem read?_eq_none_iff {rule : BlockRule} {text : List Char} :
    rule.read? text = none ↔ rule.Dangles text := by
  rw [Option.eq_none_iff_forall_ne_some]
  constructor
  · intro hnone body after hcloses htext
    exact hnone (.block rule body, after) (read?_eq_some_iff.mpr ⟨body, rfl, htext, hcloses⟩)
  · intro hdangles found hfound
    obtain ⟨body, -, htext, hcloses⟩ := read?_eq_some_iff.mp hfound
    exact hdangles body found.2 hcloses htext

end BlockRule

end Marginalia
