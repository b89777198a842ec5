/-
  MappingFlow.Expression.Dates — date arithmetic and date parts, for arguments of any
  nesting.

  ADD_TO_DATE(d, 'u', n) becomes the function that adds the unit `u`; GET_DATE_PART(d,
  'u') the one that reads it. The calls are taken from left to right, and the first
  that is not of this form ends the work.
-/

import MappingFlow.Expression.Decode

namespace MappingFlow.Expression

open Pattern

/-- The functions that add a unit of time to a date. -/
def addFunctions : List (String × String) :=
  [("DD", "addDays"), ("MM", "addMonths"), ("YYYY", "addYears"), ("YY", "addYears"),
   ("Y", "addYears"), ("HH", "addHours"), ("MI", "addMinutes"), ("SS", "addSeconds")]

/-- The functions that read a part of a date. -/
def partFunctions : List (String × String) :=
  [("DD", "dayOfMonth"), ("MM", "month"), ("YYYY", "year"), ("YY", "year"), ("Y", "year"),
   ("DDD", "dayOfYear"), ("WW", "weekOfYear"), ("HH", "hour"), ("MI", "minute"),
   ("SS", "second")]

def isCapital (c : Char) : Bool := 'A' ≤ c && c ≤ 'Z'

/-- A letter from A to Z without regard to case. -/
def isCapitalCaseless (c : Char) : Bool :=
  "ABCDEFGHIJKLMNOPQRSTUVWXYZ".toList.any (Text.sameLetter c)

/-- A unit between quotes; a line break may follow. -/
def unitPattern (letter : Char → Bool) : Pattern :=
  all [quoteMark, group 1 (longest letter), quoteMark, finish]

def unitOf? (letter : Char → Bool) (t : List Char) : Option (List Char) :=
  ((unitPattern letter).at? [] t).map fun m => Text.upper (m.group 1)

def functionFor? (table : List (String × String)) (u : List Char) : Option (List Char) :=
  (table.lookup (String.ofList u)).map String.toList

def addCallPattern : Pattern :=
  alt
    (all [caseless "ADD_".toList, optional (caseless "TO_".toList), caseless "DATE".toList,
      blanks, char '('])
    (callOf "ADD_toDate")

def addOnce? (t : List Char) : Option (List Char) := do
  let m ← addCallPattern.find? t
  let (content, after) ← closeCall? m.after
  match splitArguments content with
  | [date, u, amount] =>
    let unit ← unitOf? isCapitalCaseless (Text.trim u)
    let name ← functionFor? addFunctions unit
    return m.before.reverse ++ name ++ ['('] ++ Text.trim date ++ [',', ' '] ++ Text.trim amount
      ++ [')'] ++ after
  | _ => none

def partOnce? (t : List Char) : Option (List Char) := do
  let m ← (callOf "GET_DATE_PART").find? t
  let (content, after) ← closeCall? m.after
  let comma ← lastSeparator? content
  let unit ← unitOf? isCapital (Text.trim (content.drop (comma + 1)))
  let name ← functionFor? partFunctions unit
  return m.before.reverse ++ name ++ ['('] ++ Text.trim (content.take comma) ++ [')'] ++ after

def convertAddToDate (t : List Char) : List Char := repeatStep addOnce? 20 t

def convertDatePart (t : List Char) : List Char := repeatStep partOnce? 20 t

end MappingFlow.Expression
