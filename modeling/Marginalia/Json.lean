/-! # JSON values

The values that reports are made of, and their two written forms: on one line
without blanks, and spread over lines with two blanks for each level.
-/

namespace Marginalia

inductive Json where
  | null
  | bool (value : Bool)
  | number (value : Nat)
  | string (value : String)
  | array (items : List Json)
  /-- Fields in the order in which they are written. -/
  | object (fields : List (String × Json))
  deriving Repr, Inhabited

namespace Json

def hexDigit (n : Nat) : Char :=
  if n < 10 then Char.ofNat ('0'.toNat + n) else Char.ofNat ('a'.toNat + (n - 10))

/-- How a character is written inside a string: quotes, backslashes and control
characters are escaped, everything else stands for itself. -/
def escapeChar (c : Char) : List Char :=
  if c = '\x22' then ['\\', '\x22']
  else if c = '\\' then ['\\', '\\']
  else if c = '\x08' then ['\\', 'b']
  else if c = '\t' then ['\\', 't']
  else if c = '\n' then ['\\', 'n']
  else if c = '\x0c' then ['\\', 'f']
  else if c = '\r' then ['\\', 'r']
  else if c.toNat < 0x20 then
    ['\\', 'u', '0', '0', hexDigit (c.toNat / 16), hexDigit (c.toNat % 16)]
  else [c]

/-- A string in quotes. -/
def quote (text : String) : String :=
  String.ofList ('\x22' :: text.toList.flatMap escapeChar ++ ['\x22'])

def boolText (value : Bool) : String :=
  if value then "true" else "false"

mutual

/-- The value on one line, without blanks. -/
def compact : Json → String
  | .null => "null"
  | .bool value => boolText value
  | .number value => ToString.toString value
  | .string value => quote value
  | .array items => "[" ++ compactItems items ++ "]"
  | .object fields => "\x7b" ++ compactFields fields ++ "\x7d"

def compactItems : List Json → String
  | [] => ""
  | [item] => compact item
  | item :: rest => compact item ++ "," ++ compactItems rest

def compactFields : List (String × Json) → String
  | [] => ""
  | [(key, value)] => quote key ++ ":" ++ compact value
  | (key, value) :: rest => quote key ++ ":" ++ compact value ++ "," ++ compactFields rest

end

/-- A line break and the blanks that start a line of the given level. -/
def lineBreak (level : Nat) : String :=
  String.ofList ('\n' :: List.replicate (2 * level) ' ')

mutual

/-- The value spread over lines, `level` being that of the line it starts on. An
array or object without content stays on the line. -/
def pretty (level : Nat) : Json → String
  | .null => "null"
  | .bool value => boolText value
  | .number value => ToString.toString value
  | .string value => quote value
  | .array [] => "[]"
  | .array (item :: rest) =>
      prettyItems (level + 1) ("[" ++ lineBreak (level + 1) ++ pretty (level + 1) item) rest ++
        lineBreak level ++ "]"
  | .object [] => "\x7b\x7d"
  | .object ((key, value) :: rest) =>
      prettyFields (level + 1)
          ("\x7b" ++ lineBreak (level + 1) ++ quote key ++ ": " ++ pretty (level + 1) value) rest ++
        lineBreak level ++ "\x7d"

/-- Appends the items after the first to what is already written. -/
def prettyItems (level : Nat) (written : String) : List Json → String
  | [] => written
  | item :: rest =>
      prettyItems level (written ++ "," ++ lineBreak level ++ pretty level item) rest

/-- Appends the fields after the first to what is already written. -/
def prettyFields (level : Nat) (written : String) : List (String × Json) → String
  | [] => written
  | (key, value) :: rest =>
      prettyFields level
        (written ++ "," ++ lineBreak level ++ quote key ++ ": " ++ pretty level value) rest

end

end Json

end Marginalia
