/-
  MappingFlow.Expression.Basic — expressions of the source language in the syntax of the
  target.

  `convert` squeezes blanks, drops the direction markers IN_ and OUT_, converts DECODE and
  the date calls, then every other call, then the operators. It refuses a result in
  which a construct of the source language is left (`residue?`). `complaints` is the
  same check for an expression of any origin, together with balanced parentheses and
  quotes.
-/

import MappingFlow.Expression.Dates
import MappingFlow.Expression.Functions

namespace MappingFlow.Expression

open Pattern

/-- Texts that show that a construct of the source language is left. -/
def sourceMarkers : List String :=
  ["GET_DATE_PART(", "ADD_TO_DATE(", "ADD_toDate(", "LAST_DAY(", "TO_CHAR(", "TO_DATE(",
   "REPLACE_CHAR(", "INSTR(", "DECODE(", " AND ", " OR ", " NOT "]

def markerIn (t : List Char) (marker : String) : Bool :=
  Text.contains (Text.upper marker.toList) (Text.upper t)

def markersIn (t : List Char) : List String := sourceMarkers.filter (markerIn t)

def markerName (marker : String) : String := String.ofList (Text.trim marker.toList)

/-- A conversion that left a construct of the source language in its result. -/
structure Residue where
  marker : String
  source : String
  result : String
  deriving DecidableEq

def Residue.message (r : Residue) : String :=
  "Expresión traducida contiene función/operador no válido: '" ++ markerName r.marker ++
    "'\nOriginal: " ++ r.source ++ "\nTraducida: " ++ r.result

/-- IN_ and OUT_ at the start of a word. -/
def markerPattern : Pattern :=
  all [wordEdge, alt (literal "IN".toList) (literal "OUT".toList), char '_']

def dropDirectionMarkers (t : List Char) : List Char := markerPattern.substitute [] t

/-- Everything but the operators. -/
def convertStructure (t : List Char) : List Char :=
  convertCalls (convertDatePart (convertAddToDate (convertDecode (dropDirectionMarkers
    (Text.trim (Text.squeeze (Text.trim t)))))))

/-- Joins are left alone when the source has a DECODE: there `||` may mean or. -/
def convertJoins (source t : List Char) : List Char :=
  if Text.contains ['|', '|'] t && !Text.contains "DECODE".toList (Text.upper source) then joinTexts t
  else t

def convertUnchecked (t : List Char) : List Char :=
  convertComparisons (convertOperators (convertJoins t (convertStructure t)))

/-- Blank text stays as it is. -/
def convert (t : List Char) : Except Residue (List Char) :=
  if Text.isBlankText t then .ok t
  else
    let result := convertUnchecked t
    match markersIn result with
    | [] => .ok result
    | marker :: _ => .error ⟨marker, String.ofList t, String.ofList result⟩

/-! ## Checking an expression -/

inductive Complaint where
  | marker (m : String)
  | parentheses
  | singleQuotes
  | doubleQuotes
  deriving DecidableEq

def Complaint.message : Complaint → String
  | .marker m => "Contiene función/operador no válido: '" ++ markerName m ++ "'"
  | .parentheses => "Paréntesis no balanceados"
  | .singleQuotes => "Comillas simples no balanceadas"
  | .doubleQuotes => "Comillas dobles no balanceadas"

def complaints (t : List Char) : List Complaint :=
  (markersIn t).map .marker
    ++ (if t.count '(' = t.count ')' then [] else [.parentheses])
    ++ (if t.count '\'' % 2 = 0 then [] else [.singleQuotes])
    ++ (if t.count '"' % 2 = 0 then [] else [.doubleQuotes])

end MappingFlow.Expression
