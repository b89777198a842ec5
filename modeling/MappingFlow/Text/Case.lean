/-
  MappingFlow.Text.Case — upper, lower and title case, and letters that are equal
  without regard to case.

  `upper` and `lower` may change the length of a text: `ß` has the upper-case form
  `SS`. The capital sigma is written `ς` at the end of a word and `σ` elsewhere.
-/

import MappingFlow.Text.CaseTable
import MappingFlow.Text.Letter

namespace MappingFlow.Text

def CaseRun.shift? (r : CaseRun) (n : Nat) : Option Int :=
  if r.first ≤ n && n ≤ r.last && (n - r.first) % r.step == 0 then some r.shift else none

def shiftBy (runs : List CaseRun) (c : Char) : Char :=
  match runs.findSome? (·.shift? c.toNat) with
  | some d => Char.ofNat (c.toNat + d).toNat
  | none => c

def longForm? (forms : List (Nat × List Nat)) (c : Char) : Option (List Char) :=
  (forms.lookup c.toNat).map (·.map Char.ofNat)

def upperChar (c : Char) : List Char :=
  if c.toNat < 128 then [c.toUpper]
  else (longForm? longUppers c).getD [shiftBy upperRuns c]

def upper (t : List Char) : List Char := t.flatMap upperChar

/-- The lower-case letter of one character, always one character long. -/
def lowerChar (c : Char) : Char :=
  if c.toNat < 128 then c.toLower else shiftBy lowerRuns c

def isPassedOver (c : Char) : Bool :=
  if c.toNat < 128 then ['\'', '.', ':', '^', '\x60'].contains c else inRanges passedOverRanges c.toNat

def isCased (c : Char) : Bool :=
  if c.toNat < 128 then c.isAlpha else inRanges casedRanges c.toNat

/-- A letter with case stands next, after marks that are passed over. -/
def caseFollows (t : List Char) : Bool :=
  match t.dropWhile isPassedOver with
  | [] => false
  | c :: _ => isCased c

/-- `before` is what precedes, nearest character first. -/
def lowerFrom (before : List Char) : List Char → List Char
  | [] => []
  | c :: rest =>
    let here :=
      if c == 'Σ' then
        [if caseFollows before && !caseFollows rest then 'ς' else 'σ']
      else if c == 'İ' then ['i', '̇']
      else [lowerChar c]
    here ++ lowerFrom (c :: before) rest

def lower (t : List Char) : List Char := lowerFrom [] t

/-- The first letter in title case, all others in lower case. -/
def capitalize : List Char → List Char
  | [] => []
  | c :: rest =>
    (if c.toNat < 128 then [c.toUpper] else (longForm? titleForms c).getD (upperChar c))
      ++ lowerFrom [c] rest

/-- Two characters are equal without regard to case when their lower-case letters are
    the same letter or kin of one another. -/
def sameLetter (c d : Char) : Bool :=
  let a := lowerChar c
  let b := lowerChar d
  a == b || ((caselessKin.lookup a.toNat).getD []).contains b.toNat

end MappingFlow.Text
