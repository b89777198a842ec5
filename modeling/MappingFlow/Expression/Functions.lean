/-
  MappingFlow.Expression.Functions — the calls that have a counterpart of another name.

  A rule names a function, the shape of its arguments and what the call becomes. The
  rules are applied in order, each to the whole text and without regard to case; the
  order matters, since a call may fit several rules. The whole list is applied again
  until nothing changes, at most ten times, so that nested calls are reached.
-/

import MappingFlow.Expression.Rounds
import MappingFlow.Pattern.Template

namespace MappingFlow.Expression

open Pattern

/-- What stands in one place of an argument list. -/
inductive Argument where
  /-- Text without the given character, captured. -/
  | upTo (stop : Char)
  /-- Any text of one line, captured. -/
  | anyText
  /-- A fixed text between quotes. -/
  | fixed (t : String)
  /-- A text between quotes, captured without them. -/
  | quoted
  | star
  deriving DecidableEq

namespace Argument

/-- `index` is the group that a captured argument goes to. -/
def pattern (index : Nat) : Argument → Pattern
  | upTo stop => group index (shortest (· != stop))
  | anyText => group index (shortest isInLine)
  | fixed t => all [quoteMark, caseless t.toList, quoteMark]
  | quoted => all [quoteMark, group index (shortest fun c => c != '\'' && c != '"'), quoteMark]
  | star => char '*'

def captures : Argument → Bool
  | upTo _ => true
  | anyText => true
  | quoted => true
  | fixed _ => false
  | star => false

/-- The patterns of an argument list with the separators before each of them. -/
def listFrom (index : Nat) : List Argument → List Pattern
  | [] => []
  | a :: rest =>
    [blanks, char ',', blanks, a.pattern index] ++ listFrom (if a.captures then index + 1 else index) rest

def listPatterns : List Argument → List Pattern
  | [] => []
  | a :: rest => a.pattern 1 :: listFrom (if a.captures then 2 else 1) rest ++ [blanks]

end Argument

/-- `arguments` is absent for a name that stands without parentheses. -/
structure CallRule where
  name : String
  arguments : Option (List Argument)
  result : Template
  deriving DecidableEq

namespace CallRule

def pattern (r : CallRule) : Pattern :=
  match r.arguments with
  | none => caseless r.name.toList
  | some args =>
    all ([caseless r.name.toList, blanks, char '(', blanks] ++ Argument.listPatterns args ++ [char ')'])

def apply (t : List Char) (r : CallRule) : List Char := r.pattern.substitute r.result t

end CallRule

/-! ## The rules -/

def invoke (name : String) (args : List Template) : Template :=
  let commas := args.foldr (fun a rest => if rest.isEmpty then a else a ++ Template.plain ", ".toList ++ rest) []
  Template.plain name.toList ++ Template.plain ['('] ++ commas ++ Template.plain [')']

def firstArg : Template := [.group 1]

def secondArg : Template := [.group 2]

def thirdArg : Template := [.group 3]

def quotedTemplate (t : Template) : Template := Template.plain ['\''] ++ t ++ Template.plain ['\'']

/-- One argument. -/
def unary (name target : String) : CallRule := ⟨name, some [.upTo ')'], invoke target [firstArg]⟩

/-- Two arguments. -/
def binary (name target : String) : CallRule :=
  ⟨name, some [.upTo ',', .upTo ')'], invoke target [firstArg, secondArg]⟩

/-- Three arguments. -/
def ternary (name target : String) : CallRule :=
  ⟨name, some [.upTo ',', .upTo ',', .upTo ')'], invoke target [firstArg, secondArg, thirdArg]⟩

def nullary (name target : String) : CallRule := ⟨name, some [], invoke target []⟩

def partRule (u target : String) : CallRule :=
  ⟨"GET_DATE_PART", some [.anyText, .fixed u], invoke target [firstArg]⟩

def addRule (name u target : String) : CallRule :=
  ⟨name, some [.upTo ',', .fixed u, .upTo ')'], invoke target [firstArg, secondArg]⟩

/-- A call whose second argument is a fixed text. -/
def formatRule (name format : String) (result : Template) : CallRule :=
  ⟨name, some [.upTo ',', .fixed format], result⟩

def dayNames : Template :=
  Template.plain "case(dayOfWeek(".toList ++ firstArg ++ Template.plain
    "), 1, 'Sunday', 2, 'Monday', 3, 'Tuesday', 4, 'Wednesday', 5, 'Thursday', 6, 'Friday', 7, 'Saturday')".toList

def dateRules : List CallRule :=
  [partRule "DD" "dayOfMonth", partRule "MM" "month", partRule "YYYY" "year", partRule "YY" "year",
   partRule "Y" "year", partRule "DDD" "dayOfYear", partRule "WW" "weekOfYear", partRule "HH" "hour",
   partRule "MI" "minute", partRule "SS" "second",
   addRule "ADD_TO_DATE" "DD" "addDays", addRule "ADD_TO_DATE" "MM" "addMonths",
   addRule "ADD_TO_DATE" "YYYY" "addYears", addRule "ADD_TO_DATE" "YY" "addYears",
   addRule "ADD_TO_DATE" "Y" "addYears", addRule "ADD_TO_DATE" "HH" "addHours",
   addRule "ADD_TO_DATE" "MI" "addMinutes", addRule "ADD_TO_DATE" "SS" "addSeconds",
   addRule "ADD_toDate" "DD" "addDays", addRule "ADD_toDate" "MM" "addMonths",
   addRule "ADD_toDate" "YYYY" "addYears", addRule "ADD_toDate" "YY" "addYears",
   addRule "ADD_toDate" "Y" "addYears",
   unary "LAST_DAY" "lastDayOfMonth",
   formatRule "TO_CHAR" "DAY" dayNames,
   formatRule "TO_CHAR" "MONTH" (invoke "toString" [firstArg, Template.plain "'MMMM'".toList]),
   formatRule "TO_CHAR" "DDD" (invoke "dayOfYear" [firstArg]),
   ⟨"TO_CHAR", some [.upTo ',', .quoted], invoke "toString" [firstArg, quotedTemplate secondArg]⟩,
   formatRule "TO_DATE" "MM/DD/YYYY" (invoke "toDate" [firstArg, Template.plain "'MM/dd/yyyy'".toList]),
   formatRule "TO_DATE" "DD/MM/YYYY" (invoke "toDate" [firstArg, Template.plain "'dd/MM/yyyy'".toList]),
   formatRule "TO_DATE" "YYYY-MM-DD" (invoke "toDate" [firstArg, Template.plain "'yyyy-MM-dd'".toList]),
   ⟨"TO_DATE", some [.upTo ',', .quoted], invoke "toDate" [firstArg, quotedTemplate secondArg]⟩,
   unary "TO_DATE" "toDate",
   nullary "SYSDATE" "currentTimestamp",
   ⟨"SYSDATE", none, invoke "currentTimestamp" []⟩,
   nullary "CURRENT_DATE" "currentDate",
   nullary "CURRENT_TIMESTAMP" "currentTimestamp"]

def textRules : List CallRule :=
  [ternary "SUBSTR" "substring", binary "SUBSTR" "substring", binary "INSTR" "indexOf",
   ternary "REPLACE_CHAR" "replace", ternary "REPLACE" "replace", binary "CONCAT" "concat",
   binary "LTRIM" "ltrim", unary "LTRIM" "ltrim", binary "RTRIM" "rtrim", unary "RTRIM" "rtrim",
   binary "TRIM" "trim", unary "TRIM" "trim", unary "UPPER" "upper", unary "LOWER" "lower",
   unary "LENGTH" "length", ternary "LPAD" "lpad", ternary "RPAD" "rpad"]

def valueRules : List CallRule :=
  [unary "TO_INTEGER" "toInteger", unary "TO_DECIMAL" "toDecimal", unary "TO_FLOAT" "toFloat",
   unary "TO_CHAR" "toString", ternary "IIF" "iif"]

def aggregateRules : List CallRule :=
  [unary "SUM" "sum", unary "AVG" "avg", unary "COUNT" "count",
   ⟨"COUNT", some [.star], invoke "count" []⟩,
   unary "MIN" "min", unary "MAX" "max", unary "FIRST" "first", unary "LAST" "last"]

def numberRules : List CallRule :=
  [binary "ROUND" "round", unary "ROUND" "round", unary "CEIL" "ceil", unary "FLOOR" "floor",
   unary "ABS" "abs", binary "POWER" "power", unary "SQRT" "sqrt"]

def nullRules : List CallRule :=
  [unary "ISNULL" "isNull", unary "IS_NULL" "isNull", binary "NVL" "coalesce",
   unary "COALESCE" "coalesce"]

def callRules : List CallRule :=
  dateRules ++ textRules ++ valueRules ++ aggregateRules ++ numberRules ++ nullRules

def applyCallRules (t : List Char) : List Char := callRules.foldl CallRule.apply t

def callsOnce? (t : List Char) : Option (List Char) :=
  let t' := applyCallRules t
  if t' = t then none else some t'

def convertCalls (t : List Char) : List Char := repeatStep callsOnce? 10 t

end MappingFlow.Expression
