import Marginalia.Segment

/-! # Where literals end

The inside of a literal is a sequence of units. A literal is closed by the
delimiter after its units; one whose units never meet a delimiter is open to
the end of the text.
-/

namespace Marginalia.LiteralRule

/-- The inside of a literal: escapes, each with the character it takes along,
and characters that are neither escape nor delimiter. -/
inductive Units (rule : LiteralRule) : List Char → Prop where
  | nil : Units rule []
  | escaped {e c : Char} {rest : List Char} (escape : rule.escape = some e)
      (units : Units rule rest) : Units rule (e :: c :: rest)
  | other {c : Char} {rest : List Char} (notEscape : rule.escape ≠ some c)
      (notDelimiter : c ≠ rule.delimiter) (units : Units rule rest) : Units rule (c :: rest)

/-- A delimiter after the body closes the literal. The escape is tested first,
so a delimiter that is also the escape closes nothing. -/
structure Encloses (rule : LiteralRule) (body : List Char) : Prop where
  units : rule.Units body
  closes : rule.escape ≠ some rule.delimiter

theorem not_units_lone_escape {rule : LiteralRule} {e : Char} (h : rule.escape = some e) :
    ¬ rule.Units [e] := by
  intro hunits
  cases hunits with
  | other hescape _ _ => exact hescape h

theorem units_cons_cons_iff {rule : LiteralRule} {e c : Char} {rest : List Char}
    (h : rule.escape = some e) : rule.Units (e :: c :: rest) ↔ rule.Units rest := by
  constructor
  · intro hunits
    cases hunits with
    | escaped _ hrest => exact hrest
    | other hescape _ _ => exact absurd h hescape
  · exact .escaped h

theorem units_cons_iff {rule : LiteralRule} {c : Char} {rest : List Char}
    (h : rule.escape ≠ some c) :
    rule.Units (c :: rest) ↔ c ≠ rule.delimiter ∧ rule.Units rest := by
  constructor
  · intro hunits
    cases hunits with
    | escaped hescape _ => exact absurd hescape h
    | other _ hdelimiter hrest => exact ⟨hdelimiter, hrest⟩
  · rintro ⟨hdelimiter, hrest⟩
    exact .other h hdelimiter hrest

/-- The closing delimiter is found right after the units in front of it, and
only there. -/
theorem closeFrom?_eq_some_iff {rule : LiteralRule} {offset place : Nat} {text : List Char} :
    rule.closeFrom? offset text = some place ↔
      ∃ body after, text = body ++ rule.delimiter :: after ∧
        place = offset + body.length ∧ rule.Encloses body := by
  fun_induction closeFrom? rule offset text with
  | case1 offset => simp
  | case2 offset c hescape =>
      refine iff_of_false (Option.some_ne_none _).symm ?_
      rintro ⟨body, after, htext, -, hbody⟩
      cases body with
      | nil =>
          obtain ⟨rfl, -⟩ := List.cons.inj htext
          exact hbody.closes hescape.symm
      | cons d body => simp at htext
  | case3 offset c hescape d more ih =>
      rw [ih]
      constructor
      · rintro ⟨body, after, rfl, rfl, hbody⟩
        refine ⟨c :: d :: body, after, rfl, by simp only [List.length_cons]; omega, ?_⟩
        exact ⟨.escaped hescape.symm hbody.units, hbody.closes⟩
      · rintro ⟨body, after, htext, rfl, hbody⟩
        -- the escape takes the next character along, so the body has both or neither
        match body with
        | [] =>
            obtain ⟨rfl, -⟩ := List.cons.inj htext
            exact absurd hescape.symm hbody.closes
        | [e] =>
            obtain ⟨rfl, -⟩ := List.cons.inj htext
            exact absurd hbody.units (not_units_lone_escape hescape.symm)
        | e :: x :: body =>
            obtain ⟨rfl, htail⟩ := List.cons.inj htext
            obtain ⟨rfl, rfl⟩ := List.cons.inj htail
            refine ⟨body, after, rfl, by simp only [List.length_cons]; omega, ?_⟩
            exact ⟨(units_cons_cons_iff hescape.symm).mp hbody.units, hbody.closes⟩
  | case4 offset rest hescape =>
      constructor
      · intro h
        obtain rfl := Option.some.inj h
        exact ⟨[], rest, rfl, rfl, .nil, Ne.symm hescape⟩
      · rintro ⟨body, after, htext, rfl, hbody⟩
        cases body with
        | nil => rfl
        | cons d body =>
            obtain ⟨rfl, -⟩ := List.cons.inj htext
            exact absurd rfl ((units_cons_iff (Ne.symm hescape)).mp hbody.units).1
  | case5 offset c rest hescape hdelimiter ih =>
      rw [ih]
      constructor
      · rintro ⟨body, after, rfl, rfl, hbody⟩
        refine ⟨c :: body, after, rfl, by simp only [List.length_cons]; omega, ?_⟩
        exact ⟨.other (Ne.symm hescape) hdelimiter hbody.units, hbody.closes⟩
      · rintro ⟨body, after, htext, rfl, hbody⟩
        cases body with
        | nil => exact absurd (List.cons.inj htext).1 hdelimiter
        | cons d body =>
            obtain ⟨rfl, rfl⟩ := List.cons.inj htext
            refine ⟨body, after, rfl, by simp only [List.length_cons]; omega, ?_⟩
            exact ⟨((units_cons_iff (Ne.symm hescape)).mp hbody.units).2, hbody.closes⟩

/-- No delimiter of the text closes the literal. -/
def Dangles (rule : LiteralRule) (text : List Char) : Prop :=
  ∀ body after, rule.Encloses body → text ≠ body ++ rule.delimiter :: after

theorem closeFrom?_eq_none_iff {rule : LiteralRule} {offset : Nat} {text : List Char} :
    rule.closeFrom? offset text = none ↔ rule.Dangles text := by
  rw [Option.eq_none_iff_forall_ne_some]
  constructor
  · intro hnone body after hbody htext
    exact hnone _ (closeFrom?_eq_some_iff.mpr ⟨body, after, htext, rfl, hbody⟩)
  · intro hdangles place hplace
    obtain ⟨body, after, htext, -, hbody⟩ := closeFrom?_eq_some_iff.mp hplace
    exact hdangles body after hbody htext

/-- A literal is read up to the delimiter that closes it. -/
theorem read_append {rule : LiteralRule} {body : List Char} (h : rule.Encloses body)
    (after : List Char) :
    rule.read (body ++ rule.delimiter :: after) = (.literal rule body true, after) := by
  have hclose : rule.closeFrom? 0 (body ++ rule.delimiter :: after) = some body.length :=
    closeFrom?_eq_some_iff.mpr ⟨body, after, rfl, (Nat.zero_add _).symm, h⟩
  unfold read
  rw [hclose]
  simp

theorem read_of_dangles {rule : LiteralRule} {text : List Char} (h : rule.Dangles text) :
    rule.read text = (.literal rule text false, []) := by
  unfold read
  rw [closeFrom?_eq_none_iff.mpr h]

/-- Every text after an opening delimiter either closes the literal or leaves it
open. -/
theorem exists_enclosed_or_dangles (rule : LiteralRule) (text : List Char) :
    (∃ body after, text = body ++ rule.delimiter :: after ∧ rule.Encloses body) ∨
      rule.Dangles text := by
  cases hclose : rule.closeFrom? 0 text with
  | none => exact .inr (closeFrom?_eq_none_iff.mp hclose)
  | some place =>
      obtain ⟨body, after, htext, -, hbody⟩ := closeFrom?_eq_some_iff.mp hclose
      exact .inl ⟨body, after, htext, hbody⟩

end Marginalia.LiteralRule
