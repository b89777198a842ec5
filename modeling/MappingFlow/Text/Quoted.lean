/-
  MappingFlow.Text.Quoted — a text written between quotes, as it is shown inside
  messages and lists.

  Single quotes are used unless the text holds a single quote and no double one. Line
  breaks and tabs have short escapes; any other character that cannot be shown is
  written by its code point.
-/

import MappingFlow.Text.Letter
import MappingFlow.Text.PrintableTable

namespace MappingFlow.Text

def isPrintable (c : Char) : Bool :=
  let n := c.toNat
  if n < 127 then 32 ≤ n else inRanges printableRanges n

/-- Hexadecimal digits of `n`, at least `width` of them, in the given alphabet. -/
def hexDigits (width n : Nat) : List Char :=
  let ds := Nat.toDigits 16 n
  List.replicate (width - ds.length) '0' ++ ds

def codeEscape (c : Char) : List Char :=
  let n := c.toNat
  if n < 0x100 then '\\' :: 'x' :: hexDigits 2 n
  else if n < 0x10000 then '\\' :: 'u' :: hexDigits 4 n
  else '\\' :: 'U' :: hexDigits 8 n

def quotedChar (quote c : Char) : List Char :=
  if c == quote || c == '\\' then ['\\', c]
  else if c == '\n' then ['\\', 'n']
  else if c == '\t' then ['\\', 't']
  else if c == '\r' then ['\\', 'r']
  else if isPrintable c then [c]
  else codeEscape c

def quoteFor (t : List Char) : Char :=
  if t.contains '\'' && !t.contains '"' then '"' else '\''

def quoted (t : List Char) : List Char :=
  let q := quoteFor t
  q :: t.flatMap (quotedChar q) ++ [q]

end MappingFlow.Text
