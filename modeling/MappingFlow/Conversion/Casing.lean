/-
  MappingFlow.Conversion.Casing — one casing for each column.

  The sources fix the casing of their columns: the first one met wins, and another one
  is warned about. A word of an expression that names a column in another casing is
  replaced by the column's own.
-/

import MappingFlow.Conversion.State

namespace MappingFlow.Conversion

open Pattern

def lowerName (s : String) : String := String.ofList (Text.lower s.toList)

def casingWarning (name known : String) : String :=
  "Columna '" ++ name ++ "' encontrada con múltiples casings: '" ++ known ++ "' y '" ++ name
    ++ "'. Usando '" ++ known ++ "'."

/-- A column that is not known yet fixes its casing. -/
def learnCasing (name : String) (casing : List (String × String)) : List (String × String) :=
  match casing.lookup (lowerName name) with
  | some _ => casing
  | none => casing ++ [(lowerName name, name)]

def casingConflict? (name : String) (casing : List (String × String)) : Option String :=
  match casing.lookup (lowerName name) with
  | some known => if known = name then none else some (casingWarning name known)
  | none => none

def noteColumn (s : State) (name : String) : State :=
  { s with
    casing := learnCasing name s.casing
    warnings := s.warnings ++ (casingConflict? name s.casing).toList }

/-- The casing of the columns of the sources, in place of what was known before. -/
def setCasing (sources : List Endpoint) : Converting Unit :=
  modify fun s =>
    (sources.flatMap fun e => e.columns.map (·.name)).foldl noteColumn { s with casing := [] }

/-! ## Normalising an expression -/

def isIdentifierStart (c : Char) : Bool := c.isAlpha || c == '_'

def isIdentifierPart (c : Char) : Bool := c.isAlphanum || c == '_'

/-- An ASCII identifier that is a word of its own. -/
def identifierPattern : Pattern :=
  all [wordEdge, one isIdentifierStart, many true isIdentifierPart, wordEdge]

/-- The casing is a template of the replacement. -/
def fixWord (casing : List (String × String)) (t word : List Char) : Except Fault (List Char) :=
  match casing.lookup (String.ofList (Text.lower word)) with
  | none => .ok t
  | some known =>
    if known.toList = word then .ok t
    else
      match Template.read 0 known.toList with
      | .ok template => .ok ((wholeWord word).substitute template t)
      | .error e => .error (.template e)

def normalizeText (casing : List (String × String)) (s : String) : Except Fault String := do
  let t ← (identifierPattern.findAll s.toList).foldlM (fixWord casing) s.toList
  return String.ofList t

/-- What is absent stays as it is; anything else has to be a text. -/
def normalize (casing : List (String × String)) (v : Value) : Except Fault Value :=
  if !v.isPresent then .ok v
  else
    match v with
    | .text s => (normalizeText casing s).map .text
    | v => .error (.notMatchable v.kind)

def normalizeCasing (v : Value) : Converting Value := do
  let s ← get
  normalize s.casing v

end MappingFlow.Conversion
