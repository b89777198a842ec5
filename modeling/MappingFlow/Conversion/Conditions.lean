/-
  MappingFlow.Conversion.Conditions — the comparisons of a join or lookup condition.

  A condition is divided at ` AND `. Each part is divided at the first of its comparison
  signs, where the signs are tried in a fixed order; a part without one is dropped.
-/

import MappingFlow.Document.Access

namespace MappingFlow.Conversion

structure Comparison where
  left : String
  right : String
  operator : String
  deriving DecidableEq

def Comparison.toValue (c : Comparison) : Value :=
  .object [("leftColumn", .text c.left), ("rightColumn", .text c.right), ("operator", .text c.operator)]

/-- The signs in the order they are looked for. -/
def comparisonSigns : List String := ["=", "==", "!=", "<>", ">", "<", ">=", "<="]

def trimmed (t : List Char) : String := String.ofList (Text.trim t)

def comparison? (part : List Char) : Option Comparison :=
  comparisonSigns.findSome? fun sign =>
    (Text.splitFirst? sign.toList part).map fun (left, right) =>
      ⟨trimmed left, trimmed right, if sign = "=" then "==" else sign⟩

def comparisons (s : String) : List Comparison :=
  if s = "" then []
  else (Text.split " AND ".toList s.toList).filterMap fun part => comparison? (Text.trim part)

/-- The comparisons of a condition that may be absent. -/
def conditions (v : Value) : Except Fault Value :=
  if !v.isPresent then .ok (.list [])
  else do
    let s ← v.textFor "split"
    return .list ((comparisons s).map (·.toValue))

end MappingFlow.Conversion
