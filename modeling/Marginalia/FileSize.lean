import Marginalia.Text.Unsigned
import Marginalia.Text.Upper
import Marginalia.Text.White

/-! # File sizes

A size is a number of bytes, or of units of 1024, 1024² or 1024³ bytes, with the
unit's letter after it in any case, alone or followed by B.
-/

namespace Marginalia.FileSize

/-- Why a text is not a size. It is quoted in upper case, without the white space
around it; a number also without its unit. -/
inductive Problem where
  | notNumber (number : List Char)
  | tooLarge (size : List Char)
  deriving DecidableEq, Repr

def Problem.message : Problem → String
  | .notNumber number => "invalid number: " ++ String.ofList number
  | .tooLarge size => "size too large: " ++ String.ofList size

/-- The endings of a size and what they multiply it by, in the order in which
they are tried. -/
def units : List (List Char × Nat) :=
  [(['G', 'B'], 1024 * 1024 * 1024), (['G'], 1024 * 1024 * 1024), (['M', 'B'], 1024 * 1024),
    (['M'], 1024 * 1024), (['K', 'B'], 1024), (['K'], 1024)]

/-- Drops an ending. -/
def stripEnd? (ending text : List Char) : Option (List Char) :=
  if ending.isSuffixOf text then some (text.take (text.length - ending.length)) else none

/-- Splits a size into its number and what that is multiplied by. -/
def splitUnit (size : List Char) : List Char × Nat :=
  (units.findSome? fun (ending, factor) =>
    (stripEnd? ending size).map fun number => (number, factor)).getD (size, 1)

/-- The number of bytes that a text asks for. -/
def parse (text : String) : Except Problem Nat :=
  let size := Text.upper (Text.trim text.toList)
  let (number, factor) := splitUnit size
  match Text.unsigned? (Text.trim number) with
  | none => .error (.notNumber number)
  | some count =>
      if count * factor < Text.unsignedLimit then .ok (count * factor)
      else .error (.tooLarge size)

end Marginalia.FileSize
