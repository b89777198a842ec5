/-
  MappingFlow.Markup.Name — the characters of a document and of its names.

  `isChar` tells which characters a document may hold at all. A plain name begins with a
  letter or an underscore; a colon divides it into a prefix and a plain name
  (`qualified?`).
-/

import MappingFlow.Text.Letter

namespace MappingFlow.Markup

def isChar (c : Char) : Bool :=
  let n := c.toNat
  n == 9 || n == 10 || n == 13 || (32 ≤ n && n ≤ 0xD7FF) || (0xE000 ≤ n && n ≤ 0xFFFD) || 0x10000 ≤ n

def isSpace (c : Char) : Bool := c == ' ' || c == '\t' || c == '\n' || c == '\r'

def skipSpace (t : List Char) : List Char := t.dropWhile isSpace

/-- The rest after at least one blank. -/
def someSpace? : List Char → Option (List Char)
  | [] => none
  | c :: rest => if isSpace c then some (skipSpace rest) else none

/-- Characters that may begin a plain name. -/
def startRanges : List (Nat × Nat) :=
  [(0x41, 0x5A), (0x5F, 0x5F), (0x61, 0x7A), (0xC0, 0xD6), (0xD8, 0xF6), (0xF8, 0x2FF), (0x370, 0x37D),
   (0x37F, 0x1FFF), (0x200C, 0x200D), (0x2070, 0x218F), (0x2C00, 0x2FEF), (0x3001, 0xD7FF),
   (0xF900, 0xFDCF), (0xFDF0, 0xFFFD), (0x10000, 0xEFFFF)]

/-- Characters that may only follow in a plain name. -/
def laterRanges : List (Nat × Nat) :=
  [(0x2D, 0x2E), (0x30, 0x39), (0xB7, 0xB7), (0x300, 0x36F), (0x203F, 0x2040)]

def within (ranges : List (Nat × Nat)) (c : Char) : Bool :=
  ranges.any fun (low, high) => low ≤ c.toNat && c.toNat ≤ high

def isNameStart (c : Char) : Bool := within startRanges c

def isNamePart (c : Char) : Bool := isNameStart c || within laterRanges c

/-- A plain name off the front. -/
def plainName? : List Char → Option (List Char × List Char)
  | [] => none
  | c :: rest =>
    if isNameStart c then some (c :: rest.takeWhile isNamePart, rest.dropWhile isNamePart) else none

/-- A name as it is written: an optional prefix, and the rest of it. -/
structure RawName where
  pre : Option String
  base : String
  deriving DecidableEq

/-- A name with at most one colon off the front. -/
def qualified? (t : List Char) : Option (RawName × List Char) := do
  let (first, rest) ← plainName? t
  match rest with
  | ':' :: rest =>
    let (second, rest) ← plainName? rest
    if rest.head? == some ':' then none
    else return (⟨some (String.ofList first), String.ofList second⟩, rest)
  | _ => return (⟨none, String.ofList first⟩, rest)

/-- The rest after a fixed text. -/
def after? (fixed : String) (t : List Char) : Option (List Char) :=
  if fixed.toList.isPrefixOf t then some (t.drop fixed.length) else none

/-- What stands before the first occurrence of a fixed text, and what stands after it. -/
def upTo? (fixed : List Char) (done : List Char) : List Char → Option (List Char × List Char)
  | [] => none
  | c :: rest =>
    if fixed.isPrefixOf (c :: rest) then some (done.reverse, (c :: rest).drop fixed.length)
    else upTo? fixed (c :: done) rest

end MappingFlow.Markup
