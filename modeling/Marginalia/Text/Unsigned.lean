/-! # Unsigned numbers

Numbers of 64 bits in decimal, as they are given on a command line.
-/

namespace Marginalia.Text

/-- The numbers that fit are below this one. -/
def unsignedLimit : Nat :=
  UInt64.size

def decimalValue (digits : List Char) : Nat :=
  digits.foldl (fun value c => value * 10 + (c.toNat - '0'.toNat)) 0

/-- Drops one plus sign. -/
def dropPlus : List Char → List Char
  | '+' :: rest => rest
  | text => text

/-- Reads an optional plus sign and at least one ASCII digit. -/
def unsigned? (text : List Char) : Option Nat :=
  let digits := dropPlus text
  if digits.isEmpty || !digits.all Char.isDigit then none
  else if decimalValue digits < unsignedLimit then some (decimalValue digits)
  else none

end Marginalia.Text
