/-
  MappingFlow.Expression.Operators — logical, comparison and concatenation operators.

  `a || b` joins texts in the source language and means logical or in the target, so a
  chain of joins becomes nested calls of `concat` (`joinTexts`). The words AND, OR and
  NOT become signs, `<>` becomes `!=`, and a single `=` between two operands becomes
  `==` (`convertComparisons`).
-/

import MappingFlow.Expression.Rounds
import MappingFlow.Pattern.Template
import MappingFlow.Text.Search

namespace MappingFlow.Expression

open Pattern

/-- An operand of a join: a quoted text, or a dotted name with an optional flat
    argument list. -/
def joinOperand : Pattern :=
  alt (all [quoteMark, many false isInLine, quoteMark])
    (seq (longest fun c => Text.isWord c || c == '.')
      (optional (all [char '(', many true (· != ')'), char ')'])))

def joinPattern : Pattern :=
  all [group 1 joinOperand, blanks, literal ['|', '|'], blanks, group 2 joinOperand]

def concatTemplate : Template :=
  Template.plain "concat(".toList ++ [.group 1] ++ Template.plain ", ".toList ++ [.group 2]
    ++ Template.plain ")".toList

/-- One pass over the whole text, if a join is left. -/
def joinOnce? (t : List Char) : Option (List Char) :=
  if Text.contains ['|', '|'] t && joinPattern.occursIn t then
    some (joinPattern.substitute concatTemplate t)
  else none

def joinTexts (t : List Char) : List Char := repeatStep joinOnce? 20 t

/-- The operators that are written differently, in the order they are replaced. -/
def operatorRules : List (Pattern × List Char) :=
  [(wholeWord "AND".toList, "&&".toList),
   (wholeWord "OR".toList, "||".toList),
   (wholeWord "NOT".toList, "!".toList),
   (literal "<>".toList, "!=".toList),
   (literal "===".toList, "==".toList)]

def convertOperators (t : List Char) : List Char :=
  operatorRules.foldl (fun t rule => rule.1.substitute (Template.plain rule.2) t) t

def isComparisonSign (c : Char) : Bool := c == '=' || c == '!' || c == '<' || c == '>'

/-- The right operand runs to the next logical operator, comma, closing parenthesis or
    the end. -/
def comparisonPattern : Pattern :=
  all [group 1 (longest fun c => !(Text.isBlank c || isComparisonSign c)),
    blanks, char '=', blanks,
    group 2 (seq (one fun c => !(Text.isBlank c || c == '=')) (many false (· != '='))),
    ahead (seq blanks (any [literal ['&', '&'], literal ['|', '|'], char ',', char ')', finish]))]

def comparisonTemplate : Template := [.group 1] ++ Template.plain " == ".toList ++ [.group 2]

def convertComparisons (t : List Char) : List Char :=
  comparisonPattern.substitute comparisonTemplate t

end MappingFlow.Expression
