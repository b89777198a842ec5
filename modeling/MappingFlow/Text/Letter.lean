/-
  MappingFlow.Text.Letter — letters, numerals and the characters of a word.
-/

import MappingFlow.Text.LetterTable

namespace MappingFlow.Text

/-- A letter or numeral of any script. -/
def isAlphanumeric (c : Char) : Bool :=
  if c.toNat < 128 then c.isAlphanum else inRanges alphanumericRanges c.toNat

/-- The characters that make up a word: letters, numerals and the underscore. -/
def isWord (c : Char) : Bool := c == '_' || isAlphanumeric c

end MappingFlow.Text
