import Mathlib.Data.List.Forall2

/-! # Reading back what is written

What is written one piece after the other can be read back if the end of each piece
can be seen: at the first member without some property, at a character that no
piece holds, at a newline, or in front of the next head.
-/

namespace Marginalia

/-- A run of members with a property ends at the first member without it. -/
theorem run_inj {α : Type} {holds : α → Prop} {run other rest more : List α}
    (hrun : ∀ a ∈ run, holds a) (hother : ∀ a ∈ other, holds a)
    (hrest : ∀ a ∈ rest.head?, ¬ holds a) (hmore : ∀ a ∈ more.head?, ¬ holds a)
    (h : run ++ rest = other ++ more) : run = other ∧ rest = more := by
  induction run generalizing other with
  | nil =>
      cases other with
      | nil => exact ⟨rfl, h⟩
      | cons b other =>
          have hhead : b ∈ rest.head? := by rw [← List.nil_append rest, h]; rfl
          exact absurd (hother b List.mem_cons_self) (hrest b hhead)
  | cons a run ih =>
      cases other with
      | nil =>
          have hhead : a ∈ more.head? := by rw [← List.nil_append more, ← h]; rfl
          exact absurd (hrun a List.mem_cons_self) (hmore a hhead)
      | cons b other =>
          obtain ⟨hfirst, hlater⟩ := List.cons.inj h
          obtain ⟨htail, hsame⟩ := ih (fun c hc => hrun c (List.mem_cons_of_mem _ hc))
            (fun c hc => hother c (List.mem_cons_of_mem _ hc)) hlater
          exact ⟨by rw [hfirst, htail], hsame⟩

/-- Blocks of a head and a tail are told apart by a property that every head has and
nothing in a tail. -/
theorem forall₂_of_flatMap_cons_eq {α β : Type} {heads : β → Prop} {head : α → β}
    {tail : α → List β} (hhead : ∀ item, heads (head item))
    (htail : ∀ item, ∀ entry ∈ tail item, ¬ heads entry) {items others : List α}
    (h : items.flatMap (fun item => head item :: tail item) =
      others.flatMap fun item => head item :: tail item) :
    List.Forall₂ (fun item other => head item = head other ∧ tail item = tail other)
      items others := by
  have hnext (items : List α) : ∀ entry ∈
      (items.flatMap fun item => head item :: tail item).head?, ¬ ¬ heads entry := by
    cases items with
    | nil => exact fun entry hentry => absurd hentry (Option.not_mem_none entry)
    | cons item items =>
        intro entry hentry
        obtain rfl := Option.mem_some.mp hentry
        exact not_not_intro (hhead item)
  induction items generalizing others with
  | nil =>
      cases others with
      | nil => exact .nil
      | cons other others => exact absurd h.symm (List.cons_ne_nil _ _)
  | cons item items ih =>
      cases others with
      | nil => exact absurd h (List.cons_ne_nil _ _)
      | cons other others =>
          obtain ⟨hfirst, hlater⟩ := List.cons.inj h
          obtain ⟨hsame, hrest⟩ :=
            run_inj (htail item) (htail other) (hnext items) (hnext others) hlater
          exact .cons ⟨hfirst, hsame⟩ (ih hrest)

namespace Text

/-- A text reaches to the first occurrence of the character that ends it. -/
theorem until_inj {stop : Char} {text other rest more : List Char} (htext : stop ∉ text)
    (hother : stop ∉ other) (h : text ++ stop :: rest = other ++ stop :: more) :
    text = other ∧ rest = more := by
  have hstop (after : List Char) : ∀ c ∈ (stop :: after).head?, ¬ c ≠ stop := by
    intro c hc
    exact not_not_intro (Option.mem_some.mp hc).symm
  obtain ⟨hsame, hrest⟩ := run_inj (fun c hc => ne_of_mem_of_not_mem hc htext)
    (fun c hc => ne_of_mem_of_not_mem hc hother) (hstop rest) (hstop more) h
  exact ⟨hsame, (List.cons.inj hrest).2⟩

/-- What is written for some lines, each ended by a newline. -/
def unlines (lines : List (List Char)) : List Char :=
  lines.flatMap (· ++ ['\n'])

@[simp] theorem unlines_cons (line : List Char) (lines : List (List Char)) :
    unlines (line :: lines) = line ++ '\n' :: unlines lines := by
  rw [unlines, List.flatMap_cons, List.append_assoc, List.singleton_append, ← unlines]

@[simp] theorem unlines_append (lines more : List (List Char)) :
    unlines (lines ++ more) = unlines lines ++ unlines more :=
  List.flatMap_append

/-- Lines without newlines can be read back. -/
theorem unlines_inj {lines others : List (List Char)} (hlines : ∀ line ∈ lines, '\n' ∉ line)
    (hothers : ∀ line ∈ others, '\n' ∉ line) (h : unlines lines = unlines others) :
    lines = others := by
  have hwritten (line : List Char) (lines : List (List Char)) : unlines (line :: lines) ≠ [] := by
    rw [unlines_cons]
    exact List.append_ne_nil_of_right_ne_nil _ (List.cons_ne_nil _ _)
  induction lines generalizing others with
  | nil =>
      cases others with
      | nil => rfl
      | cons other others => exact absurd h.symm (hwritten other others)
  | cons line lines ih =>
      cases others with
      | nil => exact absurd h (hwritten line lines)
      | cons other others =>
          obtain ⟨hline, hlines⟩ := List.forall_mem_cons.mp hlines
          obtain ⟨hother, hothers⟩ := List.forall_mem_cons.mp hothers
          rw [unlines_cons, unlines_cons] at h
          obtain ⟨hfirst, hrest⟩ := until_inj hline hother h
          rw [hfirst, ih hlines hothers hrest]

theorem isDigit_of_mem_toString {n : Nat} {c : Char} (h : c ∈ (ToString.toString n).toList) :
    c.isDigit = true := by
  rw [Nat.toString_eq_repr, Nat.repr_eq_ofList_toDigits, String.toList_ofList] at h
  exact Nat.isDigit_of_mem_toDigits (by decide) (by decide) h

end Text

end Marginalia
