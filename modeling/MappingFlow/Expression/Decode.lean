/-
  MappingFlow.Expression.Decode — DECODE calls become `case` calls.

  The calls are taken from left to right. A call whose parentheses do not close, or
  which has fewer than three arguments, ends the work. Each argument has its operators
  converted on its own. A first argument TRUE is dropped: the arguments after it are
  conditions already.
-/

import MappingFlow.Expression.Arguments
import MappingFlow.Expression.Operators

namespace MappingFlow.Expression

open Pattern

/-- The name of a function, without regard to case, up to its opening parenthesis. -/
def callOf (name : String) : Pattern := all [caseless name.toList, blanks, char '(']

def decodePattern : Pattern := callOf "DECODE"

def convertArgument (t : List Char) : List Char :=
  convertComparisons (convertOperators (joinTexts t))

def isTrueWord (t : List Char) : Bool := Text.upper (Text.trim t) == "TRUE".toList

def dropTrue : List (List Char) → List (List Char)
  | [] => []
  | a :: rest => if isTrueWord a then rest else a :: rest

def caseCall (args : List (List Char)) : List Char :=
  "case(".toList ++ Text.join ", ".toList (dropTrue (args.map convertArgument)) ++ [')']

/-- The first call converted, or nothing if the work ends here. -/
def decodeOnce? (t : List Char) : Option (List Char) := do
  let m ← decodePattern.find? t
  let (content, after) ← closeCall? m.after
  let args := splitArguments content
  if args.length < 3 then none
  else return m.before.reverse ++ caseCall args ++ after

def convertDecode (t : List Char) : List Char := repeatStep decodeOnce? 20 t

end MappingFlow.Expression
