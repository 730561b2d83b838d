import Mathlib

/-! # The grammar of JSON

Which texts stand for which values, with all that JSON allows: blanks around values
and names, numbers with sign, fraction and exponent, and every kind of escape in
strings.
-/

namespace Marginalia

/-- What a JSON text stands for. -/
inductive JsonValue where
  | null
  | bool (value : Bool)
  | number (value : ℚ)
  | string (value : String)
  | array (items : List JsonValue)
  /-- Fields in the order in which they are written. -/
  | object (fields : List (String × JsonValue))

namespace JsonValue

/-- What holds of an array or object if it holds of what is in it holds of every
value. -/
@[elab_as_elim, induction_eliminator]
theorem contentInduction {motive : JsonValue → Prop} (null : motive .null)
    (bool : ∀ value, motive (.bool value)) (number : ∀ value, motive (.number value))
    (string : ∀ value, motive (.string value))
    (array : ∀ items, (∀ item ∈ items, motive item) → motive (.array items))
    (object : ∀ fields, (∀ field ∈ fields, motive field.2) → motive (.object fields))
    (value : JsonValue) : motive value :=
  @JsonValue.rec motive (fun items => ∀ item ∈ items, motive item)
    (fun fields => ∀ field ∈ fields, motive field.2) (fun field => motive field.2)
    null bool number string array object
    (fun _ h => absurd h List.not_mem_nil)
    (fun _ _ hhead htail => List.forall_mem_cons.mpr ⟨hhead, htail⟩)
    (fun _ h => absurd h List.not_mem_nil)
    (fun _ _ hhead htail => List.forall_mem_cons.mpr ⟨hhead, htail⟩) (fun _ _ h => h) value

/-! ## Strings -/

/-- The number of a hexadecimal digit, in either letter case. -/
def hexDigit? (c : Char) : Option Nat :=
  if '0' ≤ c ∧ c ≤ '9' then some (c.toNat - '0'.toNat)
  else if 'a' ≤ c ∧ c ≤ 'f' then some (c.toNat - 'a'.toNat + 10)
  else if 'A' ≤ c ∧ c ≤ 'F' then some (c.toNat - 'A'.toNat + 10)
  else none

/-- The number that four hexadecimal digits write. -/
def unit? (digits : List Char) : Option Nat :=
  if digits.length = 4 then
    (digits.mapM hexDigit?).map (·.foldl (fun number digit => number * 16 + digit) 0)
  else none

/-- What an escape of one letter stands for. -/
def shortEscape? : Char → Option Char
  | '"' => some '"'
  | '\\' => some '\\'
  | '/' => some '/'
  | 'b' => some '\x08'
  | 'f' => some '\x0c'
  | 'n' => some '\n'
  | 'r' => some '\r'
  | 't' => some '\t'
  | _ => none

/-- How a character can be written by its number: with four digits, or with four
digits for each of two surrogates. -/
inductive SpellsNumber : Char → List Char → Prop where
  | unit {c : Char} {digits : List Char} (number : unit? digits = some c.toNat) :
      SpellsNumber c digits
  | pair {c : Char} {high low : List Char} {first second : Nat}
      (highNumber : unit? high = some first) (lowNumber : unit? low = some second)
      (highRange : 0xD800 ≤ first ∧ first < 0xDC00)
      (lowRange : 0xDC00 ≤ second ∧ second < 0xE000)
      (number : c.toNat = 0x10000 + (first - 0xD800) * 0x400 + (second - 0xDC00)) :
      SpellsNumber c (high ++ '\\' :: 'u' :: low)

/-- How a character can be written inside a string. -/
inductive SpellsChar : Char → List Char → Prop where
  | plain {c : Char} (printable : 0x20 ≤ c.toNat) (notQuote : c ≠ '"') (notEscape : c ≠ '\\') :
      SpellsChar c [c]
  | short {name c : Char} (listed : shortEscape? name = some c) : SpellsChar c ['\\', name]
  | numbered {c : Char} {text : List Char} (spelled : SpellsNumber c text) :
      SpellsChar c ('\\' :: 'u' :: text)

/-- How the inside of a string can be written. -/
inductive SpellsChars : List Char → List Char → Prop where
  | nil : SpellsChars [] []
  | cons {c : Char} {text : List Char} {chars later : List Char} (first : SpellsChar c text)
      (rest : SpellsChars chars later) : SpellsChars (c :: chars) (text ++ later)

/-- How a string can be written. -/
inductive SpellsString : String → List Char → Prop where
  | quoted {value : String} {inside : List Char} (chars : SpellsChars value.toList inside) :
      SpellsString value ('"' :: (inside ++ ['"']))

/-! ## Numbers -/

/-- Some digits, at least one. -/
def IsDigits (text : List Char) : Prop :=
  text ≠ [] ∧ ∀ c ∈ text, c.isDigit = true

/-- The exponent of a number, with its letter and sign as they are written. -/
@[ext] structure Exponent where
  letter : Char
  sign : Option Char
  digits : List Char

namespace Exponent

structure Proper (exponent : Exponent) : Prop where
  letter : exponent.letter ∈ ['e', 'E']
  sign : ∀ c ∈ exponent.sign, c ∈ ['+', '-']
  digits : IsDigits exponent.digits

def text (exponent : Exponent) : List Char :=
  exponent.letter :: (exponent.sign.toList ++ exponent.digits)

def value (exponent : Exponent) : ℤ :=
  if exponent.sign = some '-' then -(Nat.ofDigitChars 10 exponent.digits 0)
  else Nat.ofDigitChars 10 exponent.digits 0

end Exponent

/-- A number as it is written. -/
@[ext] structure Numeral where
  negative : Bool
  whole : List Char
  /-- The digits after the point, if there is one. -/
  fraction : Option (List Char)
  exponent : Option Exponent

namespace Numeral

/-- The digits in front of the point start with a zero only if it stands alone. -/
structure Proper (numeral : Numeral) : Prop where
  whole : IsDigits numeral.whole
  leading : numeral.whole.head? = some '0' → numeral.whole = ['0']
  fraction : ∀ digits ∈ numeral.fraction, IsDigits digits
  exponent : ∀ exponent ∈ numeral.exponent, exponent.Proper

def signText (numeral : Numeral) : List Char :=
  if numeral.negative then ['-'] else []

def fractionText (numeral : Numeral) : List Char :=
  numeral.fraction.elim [] ('.' :: ·)

def exponentText (numeral : Numeral) : List Char :=
  numeral.exponent.elim [] Exponent.text

def text (numeral : Numeral) : List Char :=
  numeral.signText ++ (numeral.whole ++ (numeral.fractionText ++ numeral.exponentText))

/-- All digits as one number, moved by the exponent and by the places after the
point. -/
def value (numeral : Numeral) : ℚ :=
  let fraction := numeral.fraction.getD []
  let digits : ℚ := Nat.ofDigitChars 10 (numeral.whole ++ fraction) 0
  (if numeral.negative then -digits else digits) *
    10 ^ (numeral.exponent.elim 0 Exponent.value - fraction.length)

end Numeral

/-! ## Values -/

def blanks : List Char :=
  [' ', '\t', '\n', '\r']

def Blank (text : List Char) : Prop :=
  ∀ c ∈ text, c ∈ blanks

/-- With blanks on both sides. -/
inductive Padded {α : Type} (spells : α → List Char → Prop) : α → List Char → Prop where
  | mk {before text after : List Char} {item : α} (blankBefore : Blank before)
      (spelled : spells item text) (blankAfter : Blank after) :
      Padded spells item (before ++ (text ++ after))

/-- A name and a value with a colon between them. -/
inductive Member (spells : JsonValue → List Char → Prop) :
    String × JsonValue → List Char → Prop where
  | mk {key : String} {value : JsonValue} {name text : List Char}
      (named : Padded SpellsString key name) (valued : Padded spells value text) :
      Member spells (key, value) (name ++ ':' :: text)

/-- One or more items with commas between them. -/
inductive Separated {α : Type} (spells : α → List Char → Prop) : List α → List Char → Prop where
  | one {item : α} {text : List Char} (spelled : spells item text) :
      Separated spells [item] text
  | more {item : α} {items : List α} {text later : List Char} (spelled : spells item text)
      (rest : Separated spells items later) :
      Separated spells (item :: items) (text ++ ',' :: later)

/-- The inside of brackets: blanks, or items. -/
inductive Inside {α : Type} (spells : α → List Char → Prop) : List α → List Char → Prop where
  | blank {text : List Char} (blank : Blank text) : Inside spells [] text
  | items {items : List α} {text : List Char} (separated : Separated spells items text) :
      Inside spells items text

/-- How a value can be written. -/
inductive Spells : JsonValue → List Char → Prop where
  | null : Spells .null "null".toList
  | true : Spells (.bool Bool.true) "true".toList
  | false : Spells (.bool Bool.false) "false".toList
  | number {numeral : Numeral} (proper : numeral.Proper) :
      Spells (.number numeral.value) numeral.text
  | string {value : String} {text : List Char} (spelled : SpellsString value text) :
      Spells (.string value) text
  | array {items : List JsonValue} {text : List Char} (inside : Inside (Padded Spells) items text) :
      Spells (.array items) ('[' :: (text ++ [']']))
  | object {fields : List (String × JsonValue)} {text : List Char}
      (inside : Inside (Member Spells) fields text) :
      Spells (.object fields) ('{' :: (text ++ ['}']))

/-- The text as a whole stands for the value. -/
def IsText (value : JsonValue) (text : List Char) : Prop :=
  Padded Spells value text

/-! ## Writing lists -/

theorem blank_nil : Blank [] :=
  fun _ hc => absurd hc List.not_mem_nil

section Lists

variable {α : Type} {spells : α → List Char → Prop}

theorem Padded.after_blank {item : α} {before text : List Char} (hbefore : Blank before)
    (h : spells item text) : Padded spells item (before ++ text) := by
  simpa using Padded.mk hbefore h blank_nil

theorem Padded.append_blank {item : α} {text blank : List Char} (h : Padded spells item text)
    (hblank : Blank blank) : Padded spells item (text ++ blank) := by
  cases h with
  | mk hbefore hspelled hafter =>
      rw [List.append_assoc, List.append_assoc]
      exact .mk hbefore hspelled fun c hc => (List.mem_append.mp hc).elim (hafter c) (hblank c)

theorem Separated.append {items : List α} {text more : List Char}
    (h : Separated spells items text)
    (hmore : ∀ {item text}, spells item text → spells item (text ++ more)) :
    Separated spells items (text ++ more) := by
  induction h with
  | one hspelled => exact .one (hmore hspelled)
  | more hspelled _ ih =>
      rw [List.append_assoc]
      exact .more hspelled ih

/-- Pieces with commas between them, as they are written one after the other. -/
theorem separated_flatMap {β : Type} {item : β → α} {piece : β → List Char} {first : β}
    {rest : List β}
    (h : ∀ entry ∈ first :: rest, spells (item entry) (piece entry)) :
    Separated spells ((first :: rest).map item)
      (piece first ++ rest.flatMap fun entry => ',' :: piece entry) := by
  induction rest generalizing first with
  | nil => simpa using Separated.one (h first List.mem_cons_self)
  | cons second rest ih =>
      obtain ⟨hfirst, hrest⟩ := List.forall_mem_cons.mp h
      exact .more hfirst (ih hrest)

end Lists

theorem Member.append_blank {field : String × JsonValue} {text blank : List Char}
    (h : Member Spells field text) (hblank : Blank blank) :
    Member Spells field (text ++ blank) := by
  cases h with
  | mk hnamed hvalued =>
      rw [List.append_assoc]
      exact .mk hnamed (hvalued.append_blank hblank)

end JsonValue

end Marginalia
