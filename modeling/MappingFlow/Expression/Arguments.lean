/-
  MappingFlow.Expression.Arguments — the argument list of a call.

  A comma separates arguments when it stands outside quotes and at parenthesis depth
  zero (`Reading.separates`). `split` reads from the left; `lastSeparator?` reads from
  the right and stops at the first separator it meets. `closeCall?` finds the closing
  parenthesis of a call and counts every parenthesis, quoted or not.
-/

namespace MappingFlow.Expression

/-- How deep a reader is in parentheses, and the quote it is inside of, if any. -/
structure Reading where
  depth : Int
  quote : Option Char
  deriving DecidableEq

namespace Reading

def start : Reading := ⟨0, none⟩

/-- A quote opens or closes unless the other kind of quote is open. -/
def afterQuote (r : Reading) (c : Char) : Reading :=
  if c = '\'' ∨ c = '"' then
    match r.quote with
    | none => { r with quote := some c }
    | some q => if q = c then { r with quote := none } else r
  else r

def afterParen (r : Reading) (c opening closing : Char) : Reading :=
  if r.quote.isSome then r
  else if c = opening then { r with depth := r.depth + 1 }
  else if c = closing then { r with depth := r.depth - 1 }
  else r

def step (r : Reading) (c : Char) : Reading := (r.afterQuote c).afterParen c '(' ')'

def separates (r : Reading) (c : Char) : Bool := c == ',' && r.depth == 0 && r.quote.isNone

end Reading

/-- `current` is the argument read so far, last character first. -/
def splitFrom (r : Reading) (current : List Char) : List Char → List (List Char)
  | [] => if current.isEmpty then [] else [current.reverse]
  | c :: rest =>
    if r.separates c then current.reverse :: splitFrom r [] rest
    else splitFrom (r.step c) (c :: current) rest

/-- The arguments of a call; a last argument that is empty is left out. -/
def splitArguments (t : List Char) : List (List Char) := splitFrom .start [] t

/-- The same reader going backwards: parentheses change roles. -/
def Reading.stepBack (r : Reading) (c : Char) : Reading := (r.afterQuote c).afterParen c ')' '('

/-- `t` is reversed; the result counts the characters after the separator. -/
def separatorFromEnd? (r : Reading) : List Char → Option Nat
  | [] => none
  | c :: rest =>
    let r' := r.stepBack c
    if r'.separates c then some 0 else (separatorFromEnd? r' rest).map (· + 1)

/-- The position of the last comma that separates two arguments, read from the end. -/
def lastSeparator? (t : List Char) : Option Nat :=
  (separatorFromEnd? .start t.reverse).map fun after => t.length - 1 - after

/-- What stands before the parenthesis that closes `depth + 1` open ones, and after it. -/
def closeFrom? (depth : Nat) : List Char → Option (List Char × List Char)
  | [] => none
  | c :: rest =>
    if c = '(' then (closeFrom? (depth + 1) rest).map fun (a, b) => (c :: a, b)
    else if c = ')' then
      match depth with
      | 0 => some ([], rest)
      | d + 1 => (closeFrom? d rest).map fun (a, b) => (c :: a, b)
    else (closeFrom? depth rest).map fun (a, b) => (c :: a, b)

/-- The content of a call whose opening parenthesis has just been read. -/
def closeCall? (t : List Char) : Option (List Char × List Char) := closeFrom? 0 t

end MappingFlow.Expression
