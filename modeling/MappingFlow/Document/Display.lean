/-
  MappingFlow.Document.Display — the text of a value inside a message.

  A text stands for itself at the top and is quoted inside a list or an object; null and
  the truth values are `None`, `True` and `False`.
-/

import MappingFlow.Decimal.Shortest
import MappingFlow.Document.Value
import MappingFlow.Text.Quoted

namespace MappingFlow.Value

def quote (s : String) : String := String.ofList (Text.quoted s.toList)

mutual

/-- The text of a value inside another. -/
def inner : Value → String
  | .null => "None"
  | .bool b => if b then "True" else "False"
  | .int n => toString n
  | .real x => x.toText
  | .text s => quote s
  | .list xs => "[" ++ ", ".intercalate (innerItems xs) ++ "]"
  | .object fs => "\x7b" ++ ", ".intercalate (innerFields fs) ++ "\x7d"
termination_by structural v => v

def innerItems : List Value → List String
  | [] => []
  | v :: rest => inner v :: innerItems rest
termination_by structural vs => vs

def innerFields : List (String × Value) → List String
  | [] => []
  | f :: rest => innerField f :: innerFields rest
termination_by structural fs => fs

def innerField : String × Value → String
  | (key, v) => quote key ++ ": " ++ inner v
termination_by structural f => f

end

def display : Value → String
  | .text s => s
  | v => v.inner

end MappingFlow.Value
