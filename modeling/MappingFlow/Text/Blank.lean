/-
  MappingFlow.Text.Blank — blank characters, trimming and squeezing.

  Blanks are the space separators of every script, the line, tab and page controls
  and the four information separators.
-/

namespace MappingFlow.Text

def isBlank (c : Char) : Bool :=
  let n := c.toNat
  (9 ≤ n && n ≤ 13) || (28 ≤ n && n ≤ 32) || n == 0x85 || n == 0xa0 || n == 0x1680
    || (0x2000 ≤ n && n ≤ 0x200a) || n == 0x2028 || n == 0x2029 || n == 0x202f
    || n == 0x205f || n == 0x3000

def trimLeft (t : List Char) : List Char := t.dropWhile isBlank

def trimRight (t : List Char) : List Char := (trimLeft t.reverse).reverse

/-- The text without the blanks at its two ends. -/
def trim (t : List Char) : List Char := trimRight (trimLeft t)

/-- Every maximal run of blanks becomes one space. `inRun` tells that the run at the
    front has already been written. -/
def squeezeFrom (inRun : Bool) : List Char → List Char
  | [] => []
  | c :: rest =>
    if isBlank c then
      if inRun then squeezeFrom true rest else ' ' :: squeezeFrom true rest
    else c :: squeezeFrom false rest

def squeeze (t : List Char) : List Char := squeezeFrom false t

/-- A text that is empty or blank throughout. -/
def isBlankText (t : List Char) : Bool := t.all isBlank

end MappingFlow.Text
