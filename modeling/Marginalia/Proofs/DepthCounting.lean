import Mathlib.Data.List.Induction
import Mathlib.Data.Nat.Find
import Mathlib.Logic.Relation
import Marginalia.Proofs.Blocks
import Marginalia.Proofs.LineCount

/-! # Depth counting

The search for the end of a nesting comment goes from mark to mark and keeps the
number of comments that are open. In every round that number is one more than
the opening marks passed less the closing ones, and at least one. The search ends
at the first closing token in front of which the passed marks settle, and only
there.
-/

namespace Marginalia

/-! ## Balance and the first settled place -/

/-- Marks are balanced exactly if they settle the open comments, and no closing mark
stands where the marks in front of it have settled them. -/
theorem balanced_iff_first_settled {depth : Nat} {marks : List Mark} :
    Balanced depth marks ↔
      marks.count .closing = depth + marks.count .opening ∧
        ∀ front, front ++ [.closing] <+: marks →
          front.count .closing ≠ depth + front.count .opening := by
  constructor
  · intro h
    refine ⟨h.settled, ?_⟩
    intro front hfront hsettled
    have hguard := h.guarded _ hfront
    have hlast : [Mark.closing].count .closing = 1 ∧ [Mark.closing].count .opening = 0 := by decide
    rw [List.count_append, List.count_append, hlast.1, hlast.2] at hguard
    omega
  · rintro ⟨hsettled, hfirst⟩
    refine ⟨?_, hsettled⟩
    intro front
    -- from the right: the last mark closes a comment that is still open, or none
    induction front using List.reverseRecOn with
    | nil => exact fun _ => Nat.zero_le _
    | append_singleton front mark ih =>
        intro hfront
        have hguard := ih ((List.prefix_append _ _).trans hfront)
        rw [List.count_append, List.count_append]
        cases mark with
        | closing =>
            have hopen := hfirst front hfront
            change front.count .closing + 1 ≤ depth + (front.count .opening + 0)
            omega
        | opening =>
            change front.count .closing + 0 ≤ depth + (front.count .opening + 1)
            omega
        | other c => simpa using hguard

namespace BlockRule

namespace Marks

theorem exists_of_append {rule : BlockRule} {first second : List Mark} {text rest : List Char}
    (h : rule.Marks (first ++ second) text rest) :
    ∃ middle, rule.Marks first text middle ∧ rule.Marks second middle rest := by
  induction first generalizing text with
  | nil => exact ⟨text, .nil, h⟩
  | cons mark first ih =>
      cases h with
      | closing htail =>
          obtain ⟨middle, hfirst, hsecond⟩ := ih htail
          exact ⟨middle, .closing hfirst, hsecond⟩
      | opening hclosing htail =>
          obtain ⟨middle, hfirst, hsecond⟩ := ih htail
          exact ⟨middle, .opening hclosing hfirst, hsecond⟩
      | other hclosing hopening htail =>
          obtain ⟨middle, hfirst, hsecond⟩ := ih htail
          exact ⟨middle, .other hclosing hopening hfirst, hsecond⟩

/-- Of two cuts of a text, one goes on where the other stops. -/
theorem extends_or_extends {rule : BlockRule} {marks others : List Mark}
    {text rest more : List Char} (h : rule.Marks marks text rest)
    (hother : rule.Marks others text more) :
    (∃ tail, others = marks ++ tail ∧ rule.Marks tail rest more) ∨
      ∃ tail, marks = others ++ tail ∧ rule.Marks tail more rest := by
  induction h generalizing others with
  | nil => exact .inl ⟨others, rfl, hother⟩
  | closing htail ih =>
      rcases hother.at_closing with ⟨rfl, rfl⟩ | ⟨tail, rfl, hlater⟩
      · exact .inr ⟨_, rfl, .closing htail⟩
      · rcases ih hlater with ⟨tail, rfl, hend⟩ | ⟨tail, rfl, hend⟩
        · exact .inl ⟨tail, rfl, hend⟩
        · exact .inr ⟨tail, rfl, hend⟩
  | opening hclosing htail ih =>
      rcases hother.at_opening hclosing with ⟨rfl, rfl⟩ | ⟨tail, rfl, hlater⟩
      · exact .inr ⟨_, rfl, .opening hclosing htail⟩
      · rcases ih hlater with ⟨tail, rfl, hend⟩ | ⟨tail, rfl, hend⟩
        · exact .inl ⟨tail, rfl, hend⟩
        · exact .inr ⟨tail, rfl, hend⟩
  | other hclosing hopening htail ih =>
      rcases hother.at_other hclosing hopening with ⟨rfl, rfl⟩ | ⟨tail, rfl, hlater⟩
      · exact .inr ⟨_, rfl, .other hclosing hopening htail⟩
      · rcases ih hlater with ⟨tail, rfl, hend⟩ | ⟨tail, rfl, hend⟩
        · exact .inl ⟨tail, rfl, hend⟩
        · exact .inr ⟨tail, rfl, hend⟩

end Marks

theorem spell_append (rule : BlockRule) (marks more : List Mark) :
    rule.spell (marks ++ more) = rule.spell marks ++ rule.spell more :=
  List.flatMap_append

/-- The byte offset of the closing token that ends a nesting comment with the given
inside. -/
def closeOffset? (rule : BlockRule) (body : List Char) : Option Nat :=
  (rule.balanceFrom? 0 0 body).map fun place => utf8Length (body.take place)

/-- At the byte offset a mark starts, a closing token stands there, and as many
opening as closing marks are in front of it. -/
def SettledAt (rule : BlockRule) (body : List Char) (offset : Nat) : Prop :=
  ∃ marks after, rule.Marks marks body (rule.closing.chars ++ after) ∧
    offset = utf8Length (rule.spell marks) ∧ marks.count .opening = marks.count .closing

/-- The search finds the end of the marks that balance. -/
theorem closeOffset?_eq_some_iff_balanced {rule : BlockRule} {body : List Char} {offset : Nat} :
    rule.closeOffset? body = some offset ↔
      ∃ marks after, rule.Marks marks body (rule.closing.chars ++ after) ∧
        offset = utf8Length (rule.spell marks) ∧ Balanced 0 marks := by
  have htake {marks : List Mark} {rest : List Char} (h : rule.Marks marks body rest) :
      body.take (0 + (rule.spell marks).length) = rule.spell marks := by
    rw [h.spell_append, Nat.zero_add, List.take_left]
  rw [closeOffset?, Option.map_eq_some_iff]
  constructor
  · rintro ⟨place, hplace, rfl⟩
    obtain ⟨marks, after, hmarks, rfl, hbalanced⟩ := balanceFrom?_eq_some_iff.mp hplace
    exact ⟨marks, after, hmarks, by rw [htake hmarks], hbalanced⟩
  · rintro ⟨marks, after, hmarks, rfl, hbalanced⟩
    exact ⟨_, balanceFrom?_eq_some_iff.mpr ⟨marks, after, hmarks, rfl, hbalanced⟩,
      by rw [htake hmarks]⟩

/-- The search finds the first place at which the marks settle. -/
theorem closeOffset?_eq_some_iff {rule : BlockRule} {body : List Char} {offset : Nat} :
    rule.closeOffset? body = some offset ↔
      rule.SettledAt body offset ∧ ∀ other, rule.SettledAt body other → offset ≤ other := by
  rw [closeOffset?_eq_some_iff_balanced]
  constructor
  · rintro ⟨marks, after, hmarks, rfl, hbalanced⟩
    obtain ⟨hsettled, hfirst⟩ := balanced_iff_first_settled.mp hbalanced
    rw [Nat.zero_add] at hsettled
    refine ⟨⟨marks, after, hmarks, rfl, hsettled.symm⟩, ?_⟩
    rintro _ ⟨others, rest, hothers, rfl, hother⟩
    rcases hmarks.extends_or_extends hothers with ⟨tail, rfl, -⟩ | ⟨tail, rfl, htail⟩
    · rw [spell_append, utf8Length_append]
      exact Nat.le_add_right _ _
    · -- a shorter cut in front of a closing token goes on with a closing mark
      rcases htail.at_closing with ⟨rfl, -⟩ | ⟨later, rfl, -⟩
      · exact Nat.le_of_eq (by rw [List.append_nil])
      · have hshort : others ++ [Mark.closing] <+: others ++ .closing :: later :=
          ⟨later, by rw [List.append_assoc, List.singleton_append]⟩
        exact absurd (hother.symm.trans (Nat.zero_add _).symm) (hfirst others hshort)
  · rintro ⟨⟨marks, after, hmarks, rfl, hsettled⟩, hleast⟩
    refine ⟨marks, after, hmarks, rfl, balanced_iff_first_settled.mpr ⟨?_, ?_⟩⟩
    · rw [Nat.zero_add, hsettled]
    · rintro front ⟨tail, rfl⟩ hfront
      rw [Nat.zero_add] at hfront
      rw [List.append_assoc, List.singleton_append] at hmarks hleast
      obtain ⟨middle, hshort, hlong⟩ := hmarks.exists_of_append
      cases hlong with
      | closing _ =>
          have hle := hleast _ ⟨front, _, hshort, rfl, hfront.symm⟩
          have hpos := rule.closing.first.utf8Size_pos
          rw [spell_append, utf8Length_append, spell_cons_closing, Token.chars, List.cons_append,
            utf8Length_cons] at hle
          omega

theorem closeOffset?_eq_none_iff {rule : BlockRule} {body : List Char} :
    rule.closeOffset? body = none ↔ ∀ offset, ¬ rule.SettledAt body offset := by
  constructor
  · intro hnone offset hsettled
    classical
    have hexists : ∃ offset, rule.SettledAt body offset := ⟨offset, hsettled⟩
    have hfound := closeOffset?_eq_some_iff.mpr
      ⟨Nat.find_spec hexists, fun _ hother => Nat.find_min' hexists hother⟩
    exact Option.some_ne_none _ (hfound.symm.trans hnone)
  · intro hnever
    rw [Option.eq_none_iff_forall_ne_some]
    intro offset hoffset
    exact hnever offset (closeOffset?_eq_some_iff.mp hoffset).1

/-! ## The rounds of the search -/

/-- What the search knows at the start of a round: how many comments are open, the
place it has come to, and the text from there on. -/
structure Search where
  depth : Nat
  place : Nat
  rest : List Char
  deriving DecidableEq, Repr

namespace Search

def start (body : List Char) : Search :=
  ⟨1, 0, body⟩

/-- What the search answers if it ends here. -/
def answer? (rule : BlockRule) (search : Search) : Option Nat :=
  if rule.closing.chars.isPrefixOf search.rest then some search.place else none

/-- One round, `none` if the search ends in it: at the end of the text, or at a
closing token that leaves no comment open. -/
def round? (rule : BlockRule) (search : Search) : Option Search :=
  match search.rest with
  | [] => none
  | c :: rest =>
      match rule.closing.strip? (c :: rest) with
      | some after =>
          if search.depth - 1 = 0 then none
          else some ⟨search.depth - 1, search.place + rule.closing.length, after⟩
      | none =>
          match rule.opening.strip? (c :: rest) with
          | some after => some ⟨search.depth + 1, search.place + rule.opening.length, after⟩
          | none => some ⟨search.depth, search.place + 1, rest⟩

/-- Everything that one round can do: pass a closing token inside a deeper comment,
an opening token, or a character. -/
theorem round?_cases {rule : BlockRule} {search next : Search}
    (h : search.round? rule = some next) :
    (2 ≤ search.depth ∧ search.rest = rule.closing.chars ++ next.rest ∧
        next.place = search.place + rule.closing.length ∧ next.depth + 1 = search.depth) ∨
      (¬ rule.closing.chars <+: search.rest ∧ search.rest = rule.opening.chars ++ next.rest ∧
        next.place = search.place + rule.opening.length ∧ next.depth = search.depth + 1) ∨
      ∃ c, ¬ rule.closing.chars <+: search.rest ∧ ¬ rule.opening.chars <+: search.rest ∧
        search.rest = c :: next.rest ∧ next.place = search.place + 1 ∧
        next.depth = search.depth := by
  obtain ⟨depth, place, text⟩ := search
  unfold round? at h
  cases text with
  | nil => exact absurd h (Option.some_ne_none _).symm
  | cons c rest =>
      cases hclose : rule.closing.strip? (c :: rest) with
      | some after =>
          simp only [hclose] at h
          split at h
          next => exact absurd h (Option.some_ne_none _).symm
          next hdeep =>
            obtain rfl := Option.some.inj h
            have hopen : 2 ≤ depth := by omega
            exact .inl ⟨hopen, Token.strip?_eq_some_iff.mp hclose, rfl,
              Nat.sub_add_cancel (Nat.le_of_succ_le hopen)⟩
      | none =>
          have hclosing := Token.strip?_eq_none_iff.mp hclose
          cases hopen : rule.opening.strip? (c :: rest) with
          | some after =>
              simp only [hclose, hopen] at h
              obtain rfl := Option.some.inj h
              exact .inr (.inl ⟨hclosing, Token.strip?_eq_some_iff.mp hopen, rfl, rfl⟩)
          | none =>
              simp only [hclose, hopen] at h
              obtain rfl := Option.some.inj h
              exact .inr (.inr ⟨c, hclosing, Token.strip?_eq_none_iff.mp hopen, rfl, rfl, rfl⟩)

/-- A search ends at the end of the text, or at a closing token with one comment
open. -/
theorem round?_eq_none_cases {rule : BlockRule} {search : Search}
    (h : search.round? rule = none) :
    search.rest = [] ∨
      search.depth ≤ 1 ∧ ∃ after, search.rest = rule.closing.chars ++ after := by
  obtain ⟨depth, place, text⟩ := search
  unfold round? at h
  cases text with
  | nil => exact .inl rfl
  | cons c rest =>
      cases hclose : rule.closing.strip? (c :: rest) with
      | some after =>
          simp only [hclose] at h
          split at h
          next hdepth =>
            exact .inr ⟨Nat.sub_eq_zero_iff_le.mp hdepth, after, Token.strip?_eq_some_iff.mp hclose⟩
          next => exact absurd h (Option.some_ne_none _)
      | none =>
          cases hopen : rule.opening.strip? (c :: rest) with
          | some after =>
              simp only [hclose, hopen] at h
              exact absurd h (Option.some_ne_none _)
          | none =>
              simp only [hclose, hopen] at h
              exact absurd h (Option.some_ne_none _)

/-! ### The count in every round -/

/-- The comments that are open are one more than the opening marks that were passed
less the closing ones, and the place is where those marks end. -/
structure Counts (rule : BlockRule) (body : List Char) (search : Search) (marks : List Mark) :
    Prop where
  cut : rule.Marks marks body search.rest
  passed : search.place = (rule.spell marks).length
  positive : 1 ≤ search.depth
  counted : search.depth + marks.count .closing = 1 + marks.count .opening

theorem counts_start (rule : BlockRule) (body : List Char) :
    (start body).Counts rule body [] :=
  ⟨.nil, rfl, Nat.le_refl _, rfl⟩

/-- Passing one more mark keeps the count, if place and depth move by what the mark
is. -/
theorem Counts.snoc {rule : BlockRule} {body : List Char} {search next : Search}
    {marks : List Mark} (h : search.Counts rule body marks) {mark : Mark}
    (hmark : rule.Marks [mark] search.rest next.rest)
    (hplace : next.place = search.place + (rule.spell [mark]).length)
    (hopen : 1 ≤ next.depth)
    (hdepth : next.depth + [mark].count .closing = search.depth + [mark].count .opening) :
    next.Counts rule body (marks ++ [mark]) := by
  refine ⟨h.cut.append hmark, ?_, hopen, ?_⟩
  · rw [hplace, h.passed, spell_append, List.length_append]
  · have hbefore := h.counted
    rw [List.count_append, List.count_append]
    omega

/-- One round passes one mark and keeps the count. -/
theorem Counts.round {rule : BlockRule} {body : List Char} {search next : Search}
    {marks : List Mark} (h : search.Counts rule body marks)
    (hround : search.round? rule = some next) :
    ∃ mark, next.Counts rule body (marks ++ [mark]) := by
  have hopen := h.positive
  rcases round?_cases hround with ⟨hdeep, hrest, hplace, hdepth⟩ |
    ⟨hclosing, hrest, hplace, hdepth⟩ | ⟨c, hclosing, hopening, hrest, hplace, hdepth⟩
  · have hmark : rule.Marks [.closing] search.rest next.rest := hrest ▸ .closing .nil
    refine ⟨.closing, h.snoc hmark ?_ (by omega) (hdepth : next.depth + 1 = search.depth)⟩
    rw [hplace, spell_cons_closing, spell, List.flatMap_nil, List.append_nil, Token.length_chars]
  · have hmark : rule.Marks [.opening] search.rest next.rest :=
      hrest ▸ .opening (hrest ▸ hclosing) .nil
    refine ⟨.opening, h.snoc hmark ?_ (by omega) (hdepth : next.depth = search.depth + 1)⟩
    rw [hplace, spell_cons_opening, spell, List.flatMap_nil, List.append_nil, Token.length_chars]
  · have hmark : rule.Marks [.other c] search.rest next.rest :=
      hrest ▸ .other (hrest ▸ hclosing) (hrest ▸ hopening) .nil
    refine ⟨.other c, h.snoc hmark ?_ (by omega) ?_⟩
    · rw [hplace]
      rfl
    · simpa using hdepth

/-- The first search comes to the second in some number of rounds. -/
def Reaches (rule : BlockRule) : Search → Search → Prop :=
  Relation.ReflTransGen fun search next => search.round? rule = some next

/-- In every round that is reached the count is right. -/
theorem Reaches.exists_counts {rule : BlockRule} {body : List Char} {search : Search}
    (h : Reaches rule (start body) search) : ∃ marks, search.Counts rule body marks := by
  induction h with
  | refl => exact ⟨[], counts_start rule body⟩
  | tail _ hround ih =>
      obtain ⟨marks, hmarks⟩ := ih
      obtain ⟨mark, hnext⟩ := hmarks.round hround
      exact ⟨_, hnext⟩

/-! ### The rounds are the search -/

/-- The search that is left to do. -/
def finish? (rule : BlockRule) (search : Search) : Option Nat :=
  rule.balanceFrom? (search.depth - 1) search.place search.rest

theorem finish?_eq_of_round? {rule : BlockRule} {search next : Search}
    (hopen : 1 ≤ search.depth) (h : search.round? rule = some next) :
    search.finish? rule = next.finish? rule := by
  unfold finish?
  rcases round?_cases h with ⟨hdeep, hrest, hplace, hdepth⟩ |
    ⟨hclosing, hrest, hplace, hdepth⟩ | ⟨c, hclosing, hopening, hrest, hplace, hdepth⟩
  · have hinner : search.depth - 1 = next.depth - 1 + 1 := by omega
    rw [hrest, hinner, balanceFrom?_closing, hplace]
  · have hinner : next.depth - 1 = search.depth - 1 + 1 := by omega
    rw [hrest] at hclosing ⊢
    rw [balanceFrom?_opening hclosing, hinner, hplace]
  · rw [hrest] at hclosing hopening ⊢
    rw [balanceFrom?_other hclosing hopening, hplace, hdepth]

theorem finish?_eq_answer? {rule : BlockRule} {search : Search}
    (h : search.round? rule = none) : search.finish? rule = search.answer? rule := by
  unfold finish? answer?
  rcases round?_eq_none_cases h with hrest | ⟨hdepth, after, hrest⟩
  · rw [hrest, balanceFrom?]
    exact (if_neg (fun hstands => rule.closing.not_prefix_nil
      (List.isPrefixOf_iff_prefix.mp hstands))).symm
  · have hstands : rule.closing.chars.isPrefixOf (rule.closing.chars ++ after) = true :=
      List.isPrefixOf_iff_prefix.mpr (List.prefix_append _ _)
    rw [hrest, Nat.sub_eq_zero_of_le hdepth, balanceFrom?_closing_zero, if_pos hstands]

theorem length_lt_of_round? {rule : BlockRule} {search next : Search}
    (h : search.round? rule = some next) : next.rest.length < search.rest.length := by
  rcases round?_cases h with ⟨-, hrest, -⟩ | ⟨-, hrest, -⟩ | ⟨c, -, -, hrest, -⟩
  · rw [hrest, List.length_append, Token.length_chars]
    exact Nat.lt_add_of_pos_left (Nat.succ_pos _)
  · rw [hrest, List.length_append, Token.length_chars]
    exact Nat.lt_add_of_pos_left (Nat.succ_pos _)
  · rw [hrest]
    exact Nat.lt_succ_self _

/-- From every search with a comment open, the rounds come to an end, and the answer
there is what the search finds. -/
theorem exists_reaches_end (rule : BlockRule) {search : Search} (hopen : 1 ≤ search.depth) :
    ∃ last, Reaches rule search last ∧ last.round? rule = none ∧
      search.finish? rule = last.answer? rule := by
  induction hlength : search.rest.length using Nat.strongRecOn generalizing search with
  | ind length ih =>
      cases hround : search.round? rule with
      | none => exact ⟨search, .refl, hround, finish?_eq_answer? hround⟩
      | some next =>
          have hnext : 1 ≤ next.depth := by
            rcases round?_cases hround with ⟨hdeep, -, -, hdepth⟩ | ⟨-, -, -, hdepth⟩ |
              ⟨c, -, -, -, -, hdepth⟩ <;> omega
          obtain ⟨last, hreaches, hlast, hanswer⟩ :=
            ih next.rest.length (hlength ▸ length_lt_of_round? hround) hnext rfl
          exact ⟨last, .head hround hreaches, hlast,
            (finish?_eq_of_round? hopen hround).trans hanswer⟩

end Search

/-- Depth counting finds the balancing close. The end of a nesting comment is the
first place where a mark starts, a closing token stands and as many opening as
closing marks have been passed; it has no end if there is no such place. The search
goes in rounds: in each of them at least one comment is open, and the number of open
comments is one more than the opening marks passed less the closing ones; the last
round answers what the search finds. -/
theorem closeOffset?_finds_balance (rule : BlockRule) (body : List Char) :
    (∀ offset, rule.closeOffset? body = some offset ↔
      rule.SettledAt body offset ∧ ∀ other, rule.SettledAt body other → offset ≤ other) ∧
    (rule.closeOffset? body = none ↔ ∀ offset, ¬ rule.SettledAt body offset) ∧
    (∀ search, Search.Reaches rule (.start body) search →
      ∃ marks, rule.Marks marks body search.rest ∧
        search.place = (rule.spell marks).length ∧ 1 ≤ search.depth ∧
        search.depth + marks.count .closing = 1 + marks.count .opening) ∧
    ∃ last, Search.Reaches rule (.start body) last ∧ last.round? rule = none ∧
      rule.balanceFrom? 0 0 body = last.answer? rule := by
  refine ⟨fun _ => closeOffset?_eq_some_iff, closeOffset?_eq_none_iff, ?_,
    Search.exists_reaches_end rule (Nat.le_refl 1)⟩
  intro search hreaches
  obtain ⟨marks, hcut, hpassed, hopen, hdepth⟩ := hreaches.exists_counts
  exact ⟨marks, hcut, hpassed, hopen, hdepth⟩

/-- The last character of an opening token is the first of a closing one. -/
def starred : BlockRule :=
  ⟨⟨'(', ['*']⟩, ⟨'*', [')']⟩, true⟩

/-- The star of the first opening token is passed with it, so the parenthesis after it
closes nothing. -/
theorem closeOffset?_finds_balance_starred :
    Search.Reaches starred (.start "é(*)*)*)".toList) ⟨2, 3, ")*)*)".toList⟩ ∧
      (∃ marks, starred.Marks marks "é(*)*)*)".toList ")*)*)".toList ∧
        2 + marks.count .closing = 1 + marks.count .opening) ∧
      starred.closeOffset? "é(*)*)*)".toList = some 7 ∧
      starred.SettledAt "é(*)*)*)".toList 7 := by
  obtain ⟨hsome, -, hcount, -⟩ := closeOffset?_finds_balance starred "é(*)*)*)".toList
  have hfirst : (Search.start "é(*)*)*)".toList).round? starred =
      some ⟨1, 1, "(*)*)*)".toList⟩ := by
    decide +kernel
  have hsecond : Search.round? starred ⟨1, 1, "(*)*)*)".toList⟩ =
      some ⟨2, 3, ")*)*)".toList⟩ := by
    decide +kernel
  have hreaches : Search.Reaches starred (.start "é(*)*)*)".toList) ⟨2, 3, ")*)*)".toList⟩ :=
    .head hfirst (.single hsecond)
  obtain ⟨marks, hmarks, -, -, hdepth⟩ := hcount _ hreaches
  have hclose : starred.closeOffset? "é(*)*)*)".toList = some 7 := by
    decide +kernel
  exact ⟨hreaches, ⟨marks, hmarks, hdepth⟩, hclose, ((hsome 7).mp hclose).1⟩

end BlockRule

end Marginalia
