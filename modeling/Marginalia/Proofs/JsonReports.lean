import Marginalia.Report.Entry
import Marginalia.Proofs.JsonReading

/-! # Reading JSON reports

A report spread over lines is a JSON text, and it stands for one value only: an array
with the path, language and comments of each file, or its path and what went wrong.
-/

namespace Marginalia

namespace Json

open JsonValue

/-- Induction from the content of arrays and objects to the whole. -/
@[elab_as_elim, induction_eliminator]
theorem contentInduction {motive : Json → Prop} (null : motive .null)
    (bool : ∀ value, motive (.bool value)) (number : ∀ value, motive (.number value))
    (string : ∀ value, motive (.string value))
    (array : ∀ items, (∀ item ∈ items, motive item) → motive (.array items))
    (object : ∀ fields, (∀ field ∈ fields, motive field.2) → motive (.object fields))
    (value : Json) : motive value :=
  @Json.rec motive (fun items => ∀ item ∈ items, motive item)
    (fun fields => ∀ field ∈ fields, motive field.2) (fun field => motive field.2)
    null bool number string array object
    (fun _ h => absurd h List.not_mem_nil)
    (fun _ _ hhead htail => List.forall_mem_cons.mpr ⟨hhead, htail⟩)
    (fun _ h => absurd h List.not_mem_nil)
    (fun _ _ hhead htail => List.forall_mem_cons.mpr ⟨hhead, htail⟩) (fun _ _ h => h) value

mutual

/-- What the value means to a reader. -/
def meaning : Json → JsonValue
  | .null => .null
  | .bool value => .bool value
  | .number value => .number value
  | .string value => .string value
  | .array items => .array (meanings items)
  | .object fields => .object (fieldMeanings fields)

def meanings : List Json → List JsonValue
  | [] => []
  | item :: rest => meaning item :: meanings rest

def fieldMeanings : List (String × Json) → List (String × JsonValue)
  | [] => []
  | (key, value) :: rest => (key, meaning value) :: fieldMeanings rest

end

theorem meanings_eq_map (items : List Json) : meanings items = items.map meaning := by
  induction items with
  | nil => rfl
  | cons item items ih => rw [meanings, ih, List.map_cons]

theorem fieldMeanings_eq_map (fields : List (String × Json)) :
    fieldMeanings fields = fields.map fun field => (field.1, field.2.meaning) := by
  induction fields with
  | nil => rfl
  | cons field fields ih => rw [fieldMeanings, ih, List.map_cons]

/-! ## Strings -/

theorem unit?_hexDigits : ∀ n < 0x20,
    unit? ['0', '0', hexDigit (n / 16), hexDigit (n % 16)] = some n := by
  decide

theorem spellsChar_escapeChar (c : Char) : SpellsChar c (escapeChar c) := by
  unfold escapeChar
  split_ifs with hquote hescape hbackspace htab hnewline hfeed hreturn hcontrol
  · exact .short (by rw [hquote]; rfl)
  · exact .short (by rw [hescape]; rfl)
  · exact .short (by rw [hbackspace]; rfl)
  · exact .short (by rw [htab]; rfl)
  · exact .short (by rw [hnewline]; rfl)
  · exact .short (by rw [hfeed]; rfl)
  · exact .short (by rw [hreturn]; rfl)
  · exact .numbered (.unit (unit?_hexDigits c.toNat hcontrol))
  · exact .plain (Nat.le_of_not_lt hcontrol) hquote hescape

theorem spellsString_quote (text : String) : SpellsString text (quote text).toList := by
  have hchars (chars : List Char) : SpellsChars chars (chars.flatMap escapeChar) := by
    induction chars with
    | nil => exact .nil
    | cons c chars ih => exact .cons (spellsChar_escapeChar c) ih
  rw [quote, String.toList_ofList]
  exact .quoted (hchars text.toList)

/-! ## Numbers -/

/-- No zeros are written in front. -/
theorem head?_toDigits {n : Nat} (h : 0 < n) : (Nat.toDigits 10 n).head? ≠ some '0' := by
  have hdigit : ∀ digit < 10, 0 < digit → [Nat.digitChar digit].head? ≠ some '0' := by decide
  induction n using Nat.strongRecOn with
  | ind n ih =>
      by_cases hsmall : n < 10
      · rw [Nat.toDigits_of_lt_base hsmall]
        exact hdigit n hsmall h
      · have hlarge : 10 ≤ n := Nat.le_of_not_lt hsmall
        rw [Nat.toDigits_of_base_le (by decide) hlarge,
          List.head?_append_of_ne_nil _ Nat.toDigits_ne_nil]
        exact ih (n / 10) (Nat.div_lt_self h (by decide)) (Nat.div_pos hlarge (by decide))

/-- The numeral without sign, fraction or exponent. -/
def numeral (n : Nat) : Numeral :=
  ⟨false, Nat.toDigits 10 n, none, none⟩

theorem numeral_proper (n : Nat) : (numeral n).Proper where
  whole := ⟨Nat.toDigits_ne_nil,
    fun _ hc => Nat.isDigit_of_mem_toDigits (by decide) (by decide) hc⟩
  leading hzero := by
    rcases Nat.eq_zero_or_pos n with rfl | hpos
    · rfl
    · exact absurd hzero (head?_toDigits hpos)
  fraction _ hdigits := absurd hdigits (Option.not_mem_none _)
  exponent _ hexponent := absurd hexponent (Option.not_mem_none _)

theorem value_numeral (n : Nat) : (numeral n).value = n := by
  simp [numeral, Numeral.value, Nat.ofDigitChars_ten_toDigits]

theorem text_numeral (n : Nat) : (numeral n).text = (ToString.toString n).toList := by
  simp [numeral, Numeral.text, Numeral.signText, Numeral.fractionText, Numeral.exponentText]

theorem spells_toString (n : Nat) : Spells (.number n) (ToString.toString n).toList := by
  rw [← value_numeral n, ← text_numeral n]
  exact .number (numeral_proper n)

/-! ## Arrays and objects -/

theorem blank_lineBreak (level : Nat) : Blank (lineBreak level).toList := by
  intro c hc
  rw [lineBreak, String.toList_ofList, List.mem_cons] at hc
  rcases hc with rfl | hc
  · simp [blanks]
  · rw [List.eq_of_mem_replicate hc]
    exact List.mem_cons_self

theorem toList_prettyItems (level : Nat) (written : String) (items : List Json) :
    (prettyItems level written items).toList = written.toList ++ items.flatMap fun item =>
      ',' :: ((lineBreak level).toList ++ (pretty level item).toList) := by
  induction items generalizing written with
  | nil => simp [prettyItems]
  | cons item items ih => simp [prettyItems, ih]

theorem toList_prettyFields (level : Nat) (written : String) (fields : List (String × Json)) :
    (prettyFields level written fields).toList = written.toList ++ fields.flatMap fun field =>
      ',' :: ((lineBreak level).toList ++
        ((quote field.1).toList ++ ':' :: ' ' :: (pretty level field.2).toList)) := by
  induction fields generalizing written with
  | nil => simp [prettyFields]
  | cons field fields ih => simp [prettyFields, ih]

theorem spells_pretty_array {items : List Json}
    (h : ∀ item ∈ items, ∀ level, Spells item.meaning (item.pretty level).toList) (level : Nat) :
    Spells (Json.array items).meaning ((Json.array items).pretty level).toList := by
  rw [meaning, meanings_eq_map]
  cases items with
  | nil =>
      rw [pretty]
      exact Spells.array (.blank blank_nil)
  | cons first rest =>
      have hitems := separated_flatMap (fun item hitem =>
        Padded.after_blank (blank_lineBreak (level + 1)) (h item hitem (level + 1)))
      -- the line break in front of the bracket is padding of the last item
      have hinside := hitems.append fun hspelled => hspelled.append_blank (blank_lineBreak level)
      rw [pretty]
      simpa [toList_prettyItems] using Spells.array (.items hinside)

theorem spells_pretty_object {fields : List (String × Json)}
    (h : ∀ field ∈ fields, ∀ level, Spells field.2.meaning (field.2.pretty level).toList)
    (level : Nat) :
    Spells (Json.object fields).meaning ((Json.object fields).pretty level).toList := by
  rw [meaning, fieldMeanings_eq_map]
  cases fields with
  | nil =>
      rw [pretty]
      exact Spells.object (.blank blank_nil)
  | cons first rest =>
      have hspace : Blank [' '] := by simp [Blank, blanks]
      have hfields := separated_flatMap (fun field hfield =>
        Member.mk (Padded.after_blank (blank_lineBreak (level + 1)) (spellsString_quote field.1))
          (Padded.after_blank hspace (h field hfield (level + 1))))
      have hinside := hfields.append fun hspelled => hspelled.append_blank (blank_lineBreak level)
      rw [pretty]
      simpa [toList_prettyFields] using Spells.object (.items hinside)

/-- The value spread over lines is a text for what it means. -/
theorem spells_pretty (json : Json) (level : Nat) :
    Spells json.meaning (json.pretty level).toList := by
  induction json generalizing level with
  | null => exact .null
  | bool value =>
      cases value with
      | false => exact .false
      | true => exact .true
  | number value => exact spells_toString value
  | string value => exact .string (spellsString_quote value)
  | array items ih => exact spells_pretty_array ih level
  | object fields ih => exact spells_pretty_object ih level

/-- The value spread over lines stands for what it means and for nothing else. -/
theorem isText_pretty_iff (json : Json) (level : Nat) (value : JsonValue) :
    value.IsText (json.pretty level).toList ↔ value = json.meaning := by
  have htext : json.meaning.IsText (json.pretty level).toList :=
    Padded.after_blank blank_nil (spells_pretty json level)
  constructor
  · exact fun h => h.unique htext
  · rintro rfl
    exact htext

end Json

namespace Report

/-- What is told about a comment. -/
def commentShown (comment : Comment) : JsonValue :=
  .object [("text", .string comment.text), ("line", .number comment.line),
    ("multiline", .bool comment.multiline)]

/-- What is told about a file: its path, language and comments, or its path, if there
is one, and what went wrong. -/
def shown : FileResult → JsonValue
  | .ok file =>
      .object [("path", .string file.path.display), ("language", .string file.language.id),
        ("comments", .array (file.comments.map commentShown))]
  | .error failure =>
      .object [("path", (failure.path?.map Path.display).elim .null .string),
        ("error", .string failure.message)]

theorem meaning_commentJson (comment : Comment) :
    (commentJson comment).meaning = commentShown comment := by
  simp [commentJson, commentShown, Json.meaning, Json.fieldMeanings]

theorem meaning_entry (result : FileResult) : (entry result).meaning = shown result := by
  cases result with
  | ok file =>
      simp [entry, shown, Json.meaning, Json.fieldMeanings, Json.meanings_eq_map, List.map_map,
        Function.comp_def, meaning_commentJson]
  | error failure =>
      cases hpath : failure.path? <;>
        simp [entry, shown, hpath, Json.meaning, Json.fieldMeanings]

/-- A JSON report is a JSON text, and by the grammar of JSON it can only be read as the
array of what is told about each file. -/
theorem isText_json_iff (results : List FileResult) (value : JsonValue) :
    value.IsText (json results).toList ↔ value = .array (results.map shown) := by
  rw [json, Json.isText_pretty_iff, entries, Json.meaning, Json.meanings_eq_map, List.map_map]
  simp only [Function.comp_def, meaning_entry]

end Report

end Marginalia
