/-! # Lower case, as far as ASCII is concerned

Names that are compared with ASCII words are lower-cased first. Apart from the
capital letters of ASCII, only the Kelvin sign has a lower-case form that is an
ASCII character, so no other character has to be mapped: whatever it became, the
name would not be one of the words.
-/

namespace Marginalia.Text

def lowerToAscii (c : Char) : Char :=
  if c = '\u212a' then 'k' else c.toLower

end Marginalia.Text
