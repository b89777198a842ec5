/-
  MappingFlow.Text.Search — finding, replacing, splitting and counting pieces of text.

  Each function walks the text once. Where a piece of several characters has been
  taken, the walk passes over the rest of it by counting it down (`skip`).
-/

namespace MappingFlow.Text

def contains (piece : List Char) : List Char → Bool
  | [] => piece.isEmpty
  | c :: rest => piece.isPrefixOf (c :: rest) || contains piece rest

def replaceFrom (old new : List Char) (skip : Nat) : List Char → List Char
  | [] => []
  | c :: rest =>
    match skip with
    | n + 1 => replaceFrom old new n rest
    | 0 =>
      if old.isPrefixOf (c :: rest) then new ++ replaceFrom old new (old.length - 1) rest
      else c :: replaceFrom old new 0 rest

/-- Every occurrence of a non-empty piece, from left to right, replaced. -/
def replace (old new t : List Char) : List Char := replaceFrom old new 0 t

/-- Puts a character in front of the first piece. -/
def consHead (c : Char) : List (List Char) → List (List Char)
  | [] => [[c]]
  | p :: ps => (c :: p) :: ps

def splitFrom (sep : List Char) (skip : Nat) : List Char → List (List Char)
  | [] => [[]]
  | c :: rest =>
    match skip with
    | n + 1 => splitFrom sep n rest
    | 0 =>
      if sep.isPrefixOf (c :: rest) then [] :: splitFrom sep (sep.length - 1) rest
      else consHead c (splitFrom sep 0 rest)

/-- The pieces between the occurrences of a non-empty separator. -/
def split (sep t : List Char) : List (List Char) := splitFrom sep 0 t

/-- What stands before and after the first occurrence of a separator. -/
def splitFirst? (sep : List Char) : List Char → Option (List Char × List Char)
  | [] => if sep.isEmpty then some ([], []) else none
  | c :: rest =>
    if sep.isPrefixOf (c :: rest) then some ([], (c :: rest).drop sep.length)
    else (splitFirst? sep rest).map fun (a, b) => (c :: a, b)

def join (sep : List Char) : List (List Char) → List Char
  | [] => []
  | [p] => p
  | p :: q :: ps => p ++ sep ++ join sep (q :: ps)

end MappingFlow.Text
