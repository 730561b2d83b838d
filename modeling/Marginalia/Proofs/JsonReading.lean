import Marginalia.Proofs.JsonTokens

/-! # JSON is unambiguous

A text stands for at most one value. The kind of a value shows in its first character,
and each value ends where it can be followed by a blank or a delimiter.
-/

namespace Marginalia.JsonValue

/-- The first character that texts of the value's kind are known by. -/
def initial : JsonValue → Char
  | .null => 'n'
  | .bool true => 't'
  | .bool false => 'f'
  | .number _ => '0'
  | .string _ => '"'
  | .array _ => '['
  | .object _ => '{'

/-- The initial of the values that are written with the character in front. -/
def initialOf (c : Char) : Char :=
  if c.isDigit = true ∨ c = '-' then '0' else c

theorem Numeral.Proper.exists_eq_cons {numeral : Numeral} (h : numeral.Proper) :
    ∃ c tail, numeral.text = c :: tail ∧ (c.isDigit = true ∨ c = '-') := by
  unfold text signText
  split
  next => exact ⟨'-', _, rfl, .inr rfl⟩
  next =>
    obtain ⟨c, tail, hwhole, hdigit⟩ := h.whole.exists_eq_cons
    exact ⟨c, _, by rw [hwhole]; rfl, .inl hdigit⟩

theorem SpellsString.exists_eq_cons {value : String} {text : List Char}
    (h : SpellsString value text) : ∃ tail, text = '"' :: tail := by
  cases h with
  | quoted => exact ⟨_, rfl⟩

/-- The first character of a value shows its kind. -/
theorem Spells.exists_eq_cons {value : JsonValue} {text : List Char} (h : Spells value text) :
    ∃ c tail, text = c :: tail ∧ initialOf c = value.initial := by
  cases h with
  | null => exact ⟨'n', _, rfl, rfl⟩
  | true => exact ⟨'t', _, rfl, rfl⟩
  | false => exact ⟨'f', _, rfl, rfl⟩
  | number hproper =>
      obtain ⟨c, tail, htext, hc⟩ := hproper.exists_eq_cons
      exact ⟨c, tail, htext, if_pos hc⟩
  | string hspelled =>
      obtain ⟨tail, rfl⟩ := hspelled.exists_eq_cons
      exact ⟨'"', tail, rfl, rfl⟩
  | array => exact ⟨'[', _, rfl, rfl⟩
  | object => exact ⟨'{', _, rfl, rfl⟩

/-- No value starts with a blank or a delimiter. -/
theorem initialOf_ne_initial {c : Char} (h : c ∈ blanks ++ delimiters) (value : JsonValue) :
    initialOf c ≠ value.initial := by
  have hall : ∀ c ∈ blanks ++ delimiters, initialOf c = c := by
    simp [blanks, delimiters, initialOf]
  rw [hall c h]
  rintro rfl
  unfold initial at h
  split at h <;> simp [blanks, delimiters] at h

theorem Spells.initial_eq {value other : JsonValue} {text text' rest more : List Char}
    (h : Spells value text) (h' : Spells other text') (heq : text ++ rest = text' ++ more) :
    value.initial = other.initial := by
  obtain ⟨c, tail, rfl, hc⟩ := h.exists_eq_cons
  obtain ⟨d, tail', rfl, hd⟩ := h'.exists_eq_cons
  rw [← hc, ← hd, (List.cons.inj heq).1]

/-- In front of what can follow it, the item is read in one way. -/
def Readable {α : Type} (spells : α → List Char → Prop) (follow : List Char) (item : α) : Prop :=
  ∀ ⦃other : α⦄ ⦃text text' rest more : List Char⦄, spells item text → spells other text' →
    HeadIn follow rest → HeadIn follow more → text ++ rest = text' ++ more →
      item = other ∧ rest = more

/-- Texts that start with neither a blank nor a delimiter. -/
def Solid (text : List Char) : Prop :=
  ∃ c tail, text = c :: tail ∧ c ∉ blanks ++ delimiters

theorem Spells.solid {value : JsonValue} {text : List Char} (h : Spells value text) :
    Solid text := by
  obtain ⟨c, tail, htext, hc⟩ := h.exists_eq_cons
  exact ⟨c, tail, htext, fun hmem => initialOf_ne_initial hmem value hc⟩

theorem SpellsString.solid {value : String} {text : List Char} (h : SpellsString value text) :
    Solid text := by
  obtain ⟨tail, htext⟩ := h.exists_eq_cons
  exact ⟨'"', tail, htext, by simp [blanks, delimiters]⟩

theorem Blank.headIn {text : List Char} (h : Blank text) : HeadIn blanks text :=
  fun c hc => h c (List.mem_of_mem_head? hc)

theorem HeadIn.not_blank {text : List Char} (h : HeadIn delimiters text) :
    ∀ c ∈ text.head?, c ∉ blanks := by
  have hall : ∀ c ∈ delimiters, c ∉ blanks := by simp [blanks, delimiters]
  exact fun c hc => hall c (h c hc)

theorem Solid.not_blank {text : List Char} (h : Solid text) (rest : List Char) :
    ∀ c ∈ (text ++ rest).head?, c ∉ blanks := by
  obtain ⟨d, tail, rfl, hd⟩ := h
  intro c hc
  obtain rfl := Option.mem_some.mp hc
  exact fun hblank => hd (List.mem_append_left _ hblank)

section Items

variable {α : Type} {spells : α → List Char → Prop}

theorem Readable.padded {item : α} (hitem : Readable spells (blanks ++ delimiters) item)
    (hsolid : ∀ {item text}, spells item text → Solid text) :
    Readable (Padded spells) delimiters item := by
  intro other text text' rest more h h' hrest hmore heq
  have hfollow {after rest : List Char} (hafter : Blank after) (hrest : HeadIn delimiters rest) :
      HeadIn (blanks ++ delimiters) (after ++ rest) :=
    (hafter.headIn.mono (List.subset_append_left _ _)).append
      (hrest.mono (List.subset_append_right _ _))
  cases h with
  | mk hbefore hspelled hafter =>
      cases h' with
      | mk hbefore' hspelled' hafter' =>
          simp only [List.append_assoc] at heq
          obtain ⟨-, hcore⟩ := run_inj hbefore hbefore' ((hsolid hspelled).not_blank _)
            ((hsolid hspelled').not_blank _) heq
          obtain ⟨hsame, hend⟩ := hitem hspelled hspelled' (hfollow hafter hrest)
            (hfollow hafter' hmore) hcore
          exact ⟨hsame, (run_inj hafter hafter' hrest.not_blank hmore.not_blank hend).2⟩

/-- A list is read in one way in front of the bracket that ends it. -/
theorem Separated.unique {items others : List α} {text text' rest more : List Char} {stop : Char}
    (h : Separated spells items text) (h' : Separated spells others text')
    (hitems : ∀ item ∈ items, Readable spells delimiters item)
    (hstop : stop ∈ delimiters) (hcomma : stop ≠ ',')
    (heq : text ++ stop :: rest = text' ++ stop :: more) : items = others ∧ rest = more := by
  induction h generalizing others text' with
  | one hspelled =>
      have hitem := hitems _ List.mem_cons_self
      cases h' with
      | one hspelled' =>
          obtain ⟨rfl, hend⟩ := hitem hspelled hspelled' (.cons hstop _) (.cons hstop _) heq
          exact ⟨rfl, (List.cons.inj hend).2⟩
      | more hspelled' hlater' =>
          rw [List.append_assoc] at heq
          obtain ⟨-, hend⟩ := hitem hspelled hspelled' (.cons hstop _)
            (.cons List.mem_cons_self _) heq
          exact absurd (List.cons.inj hend).1 hcomma
  | more hspelled hlater ih =>
      obtain ⟨hitem, hitems⟩ := List.forall_mem_cons.mp hitems
      rw [List.append_assoc] at heq
      cases h' with
      | one hspelled' =>
          obtain ⟨-, hend⟩ := hitem hspelled hspelled' (.cons List.mem_cons_self _)
            (.cons hstop _) heq
          exact absurd (List.cons.inj hend).1.symm hcomma
      | more hspelled' hlater' =>
          rw [List.append_assoc] at heq
          obtain ⟨rfl, hend⟩ := hitem hspelled hspelled' (.cons List.mem_cons_self _)
            (.cons List.mem_cons_self _) heq
          obtain ⟨rfl, hmore⟩ := ih hlater' hitems (List.cons.inj hend).2
          exact ⟨rfl, hmore⟩

/-- Besides blanks there is something, and it does not start with a delimiter. -/
def Filled (text : List Char) : Prop :=
  ∃ before rest, text = before ++ rest ∧ Blank before ∧ Solid rest

theorem Solid.append {text : List Char} (h : Solid text) (more : List Char) :
    Solid (text ++ more) := by
  obtain ⟨c, tail, rfl, hc⟩ := h
  exact ⟨c, tail ++ more, rfl, hc⟩

theorem Filled.append {text : List Char} (h : Filled text) (more : List Char) :
    Filled (text ++ more) := by
  obtain ⟨before, rest, rfl, hbefore, hrest⟩ := h
  exact ⟨before, rest ++ more, List.append_assoc .., hbefore, hrest.append more⟩

theorem Padded.filled (hsolid : ∀ {item text}, spells item text → Solid text) {item : α}
    {text : List Char} (h : Padded spells item text) : Filled text := by
  cases h with
  | mk hbefore hspelled _ => exact ⟨_, _, rfl, hbefore, (hsolid hspelled).append _⟩

theorem Separated.filled (hfilled : ∀ {item text}, spells item text → Filled text)
    {items : List α} {text : List Char} (h : Separated spells items text) : Filled text := by
  cases h with
  | one hspelled => exact hfilled hspelled
  | more hspelled _ => exact (hfilled hspelled).append _

/-- Blanks in front of a bracket are not read as items. -/
theorem Filled.ne_blank {text other rest more : List Char} {stop : Char} (h : Filled text)
    (hother : Blank other) (hstop : stop ∈ delimiters) :
    text ++ rest ≠ other ++ stop :: more := by
  intro heq
  obtain ⟨before, tail, rfl, hbefore, hsolid⟩ := h
  rw [List.append_assoc] at heq
  obtain ⟨-, hafter⟩ := run_inj hbefore hother (hsolid.not_blank rest)
    (HeadIn.cons hstop more).not_blank heq
  obtain ⟨c, last, rfl, hc⟩ := hsolid
  rw [(List.cons.inj hafter).1] at hc
  exact hc (List.mem_append_right _ hstop)

theorem Inside.unique (hfilled : ∀ {item text}, spells item text → Filled text)
    {items others : List α} {text text' rest more : List Char} {stop : Char}
    (h : Inside spells items text) (h' : Inside spells others text')
    (hitems : ∀ item ∈ items, Readable spells delimiters item)
    (hstop : stop ∈ delimiters) (hcomma : stop ≠ ',')
    (heq : text ++ stop :: rest = text' ++ stop :: more) : items = others ∧ rest = more := by
  cases h with
  | blank hblank =>
      cases h' with
      | blank hblank' =>
          obtain ⟨-, hend⟩ := run_inj hblank hblank' (HeadIn.cons hstop rest).not_blank
            (HeadIn.cons hstop more).not_blank heq
          exact ⟨rfl, (List.cons.inj hend).2⟩
      | items hseparated' =>
          exact absurd heq.symm ((hseparated'.filled hfilled).ne_blank hblank hstop)
  | items hseparated =>
      cases h' with
      | blank hblank' => exact absurd heq ((hseparated.filled hfilled).ne_blank hblank' hstop)
      | items hseparated' => exact hseparated.unique hseparated' hitems hstop hcomma heq

end Items

theorem Member.filled {field : String × JsonValue} {text : List Char} (h : Member Spells field text) :
    Filled text := by
  cases h with
  | mk hnamed _ => exact (hnamed.filled SpellsString.solid).append _

theorem Readable.member {field : String × JsonValue}
    (h : Readable Spells (blanks ++ delimiters) field.2) :
    Readable (Member Spells) delimiters field := by
  intro other text text' rest more hspelled hspelled' hrest hmore heq
  have hcolon : ':' ∈ delimiters := by simp [delimiters]
  have hkey (key : String) : Readable SpellsString (blanks ++ delimiters) key :=
    fun _ _ _ _ _ hspelled hspelled' _ _ heq => hspelled.unique hspelled' heq
  cases hspelled with
  | mk hnamed hvalued =>
      cases hspelled' with
      | mk hnamed' hvalued' =>
          rw [List.append_assoc, List.append_assoc] at heq
          obtain ⟨rfl, hlater⟩ := (hkey _).padded SpellsString.solid hnamed hnamed'
            (.cons hcolon _) (.cons hcolon _) heq
          obtain ⟨rfl, hend⟩ := h.padded Spells.solid hvalued hvalued' hrest hmore
            (List.cons.inj hlater).2
          exact ⟨rfl, hend⟩

theorem readable_array {items : List JsonValue}
    (h : ∀ item ∈ items, Readable Spells (blanks ++ delimiters) item) :
    Readable Spells (blanks ++ delimiters) (.array items) := by
  intro other text text' rest more hspelled hspelled' _ _ heq
  have hinitial := hspelled.initial_eq hspelled' heq
  cases hspelled with
  | array hinside =>
      cases hspelled' with
      | array hinside' =>
          rw [List.cons_append, List.cons_append, List.append_assoc, List.append_assoc] at heq
          obtain ⟨rfl, hend⟩ := hinside.unique (Padded.filled Spells.solid) hinside'
            (fun item hitem => (h item hitem).padded Spells.solid) (by simp [delimiters])
            (by decide) (List.cons.inj heq).2
          exact ⟨rfl, hend⟩
      | _ => exact absurd hinitial (by simp [initial])

theorem readable_object {fields : List (String × JsonValue)}
    (h : ∀ field ∈ fields, Readable Spells (blanks ++ delimiters) field.2) :
    Readable Spells (blanks ++ delimiters) (.object fields) := by
  intro other text text' rest more hspelled hspelled' _ _ heq
  have hinitial := hspelled.initial_eq hspelled' heq
  cases hspelled with
  | object hinside =>
      cases hspelled' with
      | object hinside' =>
          rw [List.cons_append, List.cons_append, List.append_assoc, List.append_assoc] at heq
          obtain ⟨rfl, hend⟩ := hinside.unique Member.filled hinside'
            (fun field hfield => (h field hfield).member) (by simp [delimiters])
            (by decide) (List.cons.inj heq).2
          exact ⟨rfl, hend⟩
      | _ => exact absurd hinitial (by simp [initial])

/-- Every value is read in one way. -/
theorem readable (value : JsonValue) : Readable Spells (blanks ++ delimiters) value := by
  -- Texts that agree start alike, so only values of the same kind are left to compare.
  induction value with
  | null =>
      intro other text text' rest more hspelled hspelled' _ _ heq
      have hinitial := hspelled.initial_eq hspelled' heq
      cases hspelled
      cases hspelled' with
      | null => exact ⟨rfl, List.append_cancel_left heq⟩
      | _ => exact absurd hinitial (by simp [initial])
  | bool value =>
      intro other text text' rest more hspelled hspelled' _ _ heq
      have hinitial := hspelled.initial_eq hspelled' heq
      cases hspelled with
      | true =>
          cases hspelled' with
          | true => exact ⟨rfl, List.append_cancel_left heq⟩
          | _ => exact absurd hinitial (by simp [initial])
      | false =>
          cases hspelled' with
          | false => exact ⟨rfl, List.append_cancel_left heq⟩
          | _ => exact absurd hinitial (by simp [initial])
  | number value =>
      intro other text text' rest more hspelled hspelled' hrest hmore heq
      have hinitial := hspelled.initial_eq hspelled' heq
      cases hspelled with
      | number hproper =>
          cases hspelled' with
          | number hproper' =>
              obtain ⟨rfl, hend⟩ := hproper.unique hproper' hrest hmore heq
              exact ⟨rfl, hend⟩
          | _ => exact absurd hinitial (by simp [initial])
  | string value =>
      intro other text text' rest more hspelled hspelled' _ _ heq
      have hinitial := hspelled.initial_eq hspelled' heq
      cases hspelled with
      | string hstring =>
          cases hspelled' with
          | string hstring' =>
              obtain ⟨rfl, hend⟩ := hstring.unique hstring' heq
              exact ⟨rfl, hend⟩
          | _ => exact absurd hinitial (by simp [initial])
  | array items ih => exact readable_array ih
  | object fields ih => exact readable_object ih

/-- A text stands for at most one value. -/
theorem IsText.unique {value other : JsonValue} {text : List Char} (h : value.IsText text)
    (h' : other.IsText text) : value = other := by
  have hend : HeadIn delimiters [] := fun c hc => absurd hc (Option.not_mem_none c)
  exact ((readable value).padded Spells.solid h h' hend hend rfl).1

end Marginalia.JsonValue
