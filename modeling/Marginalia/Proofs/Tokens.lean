import Marginalia.Segment

/-! # Where tokens stand

A token stands at the head of a text when its characters are a prefix of it.
The functions that strip a token, strip a run of it, or look for its first
occurrence are described here through prefixes alone.
-/

namespace Marginalia

namespace Token

theorem prefix_iff_exists_append {token : Token} {text : List Char} :
    token.chars <+: text ↔ ∃ rest, text = token.chars ++ rest :=
  ⟨fun ⟨rest, h⟩ => ⟨rest, h.symm⟩, fun ⟨rest, h⟩ => ⟨rest, h.symm⟩⟩

theorem strip?_eq_none_iff {token : Token} {text : List Char} :
    token.strip? text = none ↔ ¬ token.chars <+: text := by
  rw [prefix_iff_exists_append, Option.eq_none_iff_forall_ne_some, not_exists]
  exact forall_congr' fun rest => not_congr strip?_eq_some_iff

theorem chars_ne_nil (token : Token) : token.chars ≠ [] :=
  List.cons_ne_nil _ _

theorem not_prefix_nil (token : Token) : ¬ token.chars <+: [] := by
  rw [List.prefix_nil]
  exact token.chars_ne_nil

/-- A token can only stand where its first character does. -/
theorem not_prefix_of_first_ne {token : Token} {c : Char} {rest : List Char}
    (h : token.first ≠ c) : ¬ token.chars <+: c :: rest := by
  intro hstands
  exact h (List.cons_prefix_cons.mp hstands).1

theorem not_prefix_of_not_mem {token : Token} {c : Char} (h : c ∉ token.chars)
    (rest : List Char) : ¬ token.chars <+: c :: rest :=
  not_prefix_of_first_ne fun hfirst => h (hfirst ▸ List.mem_cons_self)

/-- A run of markers is stripped to the last copy, and the count says how many
copies there were. -/
theorem stripRun_eq_iff {token : Token} {count : Nat} {text : List Char} {total : Nat}
    {rest : List Char} :
    token.stripRun count text = (total, rest) ↔
      ∃ more, total = count + more ∧
        text = (List.replicate more token.chars).flatten ++ rest ∧ ¬ token.chars <+: rest := by
  fun_induction stripRun token count text with
  | case1 count text after hstrip ih =>
      rw [ih]
      obtain rfl := strip?_eq_some_iff.mp hstrip
      constructor
      · rintro ⟨more, rfl, rfl, hend⟩
        refine ⟨more + 1, by omega, ?_, hend⟩
        rw [List.replicate_succ, List.flatten_cons, List.append_assoc]
      · rintro ⟨more, rfl, htext, hend⟩
        cases more with
        | zero =>
            -- no copy left to strip, yet the token still stands there
            have hrest : token.chars ++ after = rest := htext
            exact absurd (hrest ▸ List.prefix_append _ _) hend
        | succ more =>
            rw [List.replicate_succ, List.flatten_cons, List.append_assoc] at htext
            exact ⟨more, by omega, List.append_cancel_left htext, hend⟩
  | case2 count text hstrip =>
      have hnone := strip?_eq_none_iff.mp hstrip
      constructor
      · intro h
        obtain ⟨rfl, rfl⟩ := Prod.mk.inj h
        exact ⟨0, rfl, rfl, hnone⟩
      · rintro ⟨more, rfl, rfl, hend⟩
        cases more with
        | zero => rfl
        | succ more =>
            rw [List.replicate_succ, List.flatten_cons, List.append_assoc] at hnone
            exact absurd (List.prefix_append _ _) hnone

/-- The first occurrence of a token is the one with the shortest text in front
of it. -/
theorem indexFrom?_eq_some_iff {token : Token} {offset place : Nat} {text : List Char} :
    token.indexFrom? offset text = some place ↔
      ∃ body after, text = body ++ (token.chars ++ after) ∧ place = offset + body.length ∧
        ∀ other rest, text = other ++ (token.chars ++ rest) → body.length ≤ other.length := by
  induction text generalizing offset with
  | nil => simp [indexFrom?, chars]
  | cons c rest ih =>
      unfold indexFrom?
      split
      next hstands =>
        obtain ⟨after, hafter⟩ := List.isPrefixOf_iff_prefix.mp hstands
        constructor
        · intro h
          obtain rfl := Option.some.inj h
          exact ⟨[], after, hafter.symm, rfl, fun _ _ _ => Nat.zero_le _⟩
        · rintro ⟨body, -, -, rfl, hleast⟩
          have hzero := hleast [] after hafter.symm
          rw [Nat.le_zero.mp hzero]
          rfl
      next hstands =>
        rw [List.isPrefixOf_iff_prefix] at hstands
        rw [ih]
        constructor
        · rintro ⟨body, after, rfl, rfl, hleast⟩
          refine ⟨c :: body, after, rfl, by simp only [List.length_cons]; omega, ?_⟩
          intro other tail htext
          cases other with
          | nil => exact absurd ⟨tail, htext.symm⟩ hstands
          | cons d other =>
              exact Nat.succ_le_succ (hleast other tail (List.cons.inj htext).2)
        · rintro ⟨body, after, htext, rfl, hleast⟩
          cases body with
          | nil => exact absurd ⟨after, htext.symm⟩ hstands
          | cons d body =>
              obtain ⟨rfl, rfl⟩ := List.cons.inj htext
              refine ⟨body, after, rfl, by simp only [List.length_cons]; omega, ?_⟩
              intro other tail hother
              exact Nat.le_of_succ_le_succ (hleast (c :: other) tail (congrArg (c :: ·) hother))

/-- A token that occurs somewhere is found there or earlier. -/
theorem exists_indexFrom?_le (token : Token) (offset : Nat) (body after : List Char) :
    ∃ place ≤ offset + body.length,
      token.indexFrom? offset (body ++ (token.chars ++ after)) = some place := by
  induction body generalizing offset with
  | nil =>
      have hstands : token.chars.isPrefixOf (token.first :: (token.rest ++ after)) = true :=
        List.isPrefixOf_iff_prefix.mpr (List.prefix_append token.chars after)
      exact ⟨offset, Nat.le_refl _, if_pos hstands⟩
  | cons c body ih =>
      rw [List.cons_append, indexFrom?]
      split
      · exact ⟨offset, Nat.le_add_right _ _, rfl⟩
      · obtain ⟨place, hplace, hfound⟩ := ih (offset + 1)
        refine ⟨place, ?_, hfound⟩
        rw [List.length_cons]
        omega

end Token

end Marginalia
