/-
  MappingFlow.Document.Yaml.Scalar — what a text without quotes means.

  Such a text is a text unless its form is that of a truth value, a number, a point in
  time or nothing at all. `Scalar.read` gives the value, and `isText` says that a text
  written without quotes is read as itself.
-/

import MappingFlow.Document.Value

namespace MappingFlow.Yaml.Scalar

def nothings : List String := ["", "~", "null", "Null", "NULL"]

def truths : List String :=
  ["yes", "Yes", "YES", "true", "True", "TRUE", "on", "On", "ON"]

def falsehoods : List String :=
  ["no", "No", "NO", "false", "False", "FALSE", "off", "Off", "OFF"]

/-- Marks with a meaning of their own that no value has. -/
def marks : List String := ["<<", "=", "!", "&", "*"]

/-! ## Digits -/

def isDecimal (c : Char) : Bool := '0' ≤ c && c ≤ '9'

def isOctal (c : Char) : Bool := '0' ≤ c && c ≤ '7'

def isBinary (c : Char) : Bool := c == '0' || c == '1'

def isHexadecimal (c : Char) : Bool :=
  isDecimal c || ('a' ≤ c && c ≤ 'f') || ('A' ≤ c && c ≤ 'F')

def digitValue (c : Char) : Nat :=
  if isDecimal c then c.toNat - 48
  else if 'a' ≤ c && c ≤ 'f' then c.toNat - 87
  else c.toNat - 55

/-- Low lines between digits mean nothing. -/
def bare (t : List Char) : List Char := t.filter (· != '_')

def number (base : Nat) (t : List Char) : Nat :=
  (bare t).foldl (fun n c => base * n + digitValue c) 0

/-- At least one character, each a digit of the kind or a low line. -/
def areDigits (isKind : Char → Bool) (t : List Char) : Bool :=
  !t.isEmpty && t.all fun c => isKind c || c == '_'

/-- Decimal digits and low lines, a digit first. -/
def isWhole : List Char → Bool
  | [] => false
  | c :: rest => isDecimal c && rest.all fun d => isDecimal d || d == '_'

def splitSign : List Char → Bool × List Char
  | '-' :: rest => (true, rest)
  | '+' :: rest => (false, rest)
  | t => (false, t)

/-- One or two digits that are less than sixty. -/
def isSixtieth : List Char → Bool
  | [a] => isDecimal a
  | [a, b] => '0' ≤ a && a ≤ '5' && isDecimal b
  | _ => false

def splitAt (sep : Char) : List Char → List (List Char)
  | [] => [[]]
  | c :: rest =>
    match splitAt sep rest with
    | [] => [[c]]
    | first :: others => if c == sep then [] :: first :: others else (c :: first) :: others

def sixtieths (parts : List (List Char)) : Nat :=
  parts.foldl (fun n p => 60 * n + number 10 p) 0

/-! ## Numbers -/

/-- A whole number without its sign. -/
def magnitude? : List Char → Option Nat
  | ['0'] => some 0
  | '0' :: 'b' :: rest => if areDigits isBinary rest then some (number 2 rest) else none
  | '0' :: 'x' :: rest => if areDigits isHexadecimal rest then some (number 16 rest) else none
  | '0' :: rest => if areDigits isOctal rest then some (number 8 rest) else none
  | t =>
    match splitAt ':' t with
    | [whole] => if isWhole whole then some (number 10 whole) else none
    | whole :: parts =>
      if isWhole whole && parts.all isSixtieth then some (sixtieths (whole :: parts)) else none
    | [] => none

def int? (t : List Char) : Option Int :=
  let (negative, rest) := splitSign t
  (magnitude? rest).map fun n => if negative then -(n : Int) else n

/-- Nothing, or a power of ten with its sign. -/
def exponent? : List Char → Option Int
  | [] => some 0
  | e :: sign :: digits =>
    if (e == 'e' || e == 'E') && (sign == '-' || sign == '+') && !digits.isEmpty && digits.all isDecimal then
      some (if sign == '-' then -(number 10 digits : Int) else number 10 digits)
    else none
  | _ => none

/-- The digits after the point, and the power of ten. -/
def places? (t : List Char) : Option (List Char × Int) :=
  let places := t.takeWhile fun c => isDecimal c || c == '_'
  (exponent? (t.drop places.length)).map fun e => (bare places, e)

def decimal (negative : Bool) (whole places : List Char) (exponent : Int) : Binary64 :=
  .ofDecimal negative (number 10 (whole ++ places)) (exponent - places.length)

def real? (t : List Char) : Option Binary64 :=
  let (negative, rest) := splitSign t
  let word := String.ofList rest
  if word = ".inf" || word = ".Inf" || word = ".INF" then some (.infinite negative)
  else if t = rest && (word = ".nan" || word = ".NaN" || word = ".NAN") then some .nan
  else
    match splitAt '.' rest with
    | [whole, after] =>
      if whole.isEmpty then
        if t = rest && isWhole (after.take 1) then
          (places? after).map fun p => decimal negative [] p.1 p.2
        else none
      else if isWhole whole then (places? after).map fun p => decimal negative (bare whole) p.1 p.2
      else
        match splitAt ':' whole with
        | first :: second :: parts =>
          if isWhole first && (second :: parts).all isSixtieth && after.all fun c => isDecimal c || c == '_' then
            let n := sixtieths (first :: second :: parts)
            some (decimal negative (Nat.toDigits 10 n) (bare after) 0)
          else none
        | _ => none
    | _ => none

/-! ## Points in time -/

def countIn (least most : Nat) (t : List Char) : Bool :=
  least ≤ t.length && t.length ≤ most && t.all isDecimal

def isZone (t : List Char) : Bool :=
  match t.dropWhile fun c => c == ' ' || c == '\t' with
  | [] => t.isEmpty
  | ['Z'] => true
  | sign :: rest =>
    (sign == '-' || sign == '+') &&
      match splitAt ':' rest with
      | [hours] => countIn 1 2 hours
      | [hours, minutes] => countIn 1 2 hours && countIn 2 2 minutes
      | _ => false

/-- Seconds, with or without places, and the zone. -/
def isSeconds (t : List Char) : Bool :=
  countIn 2 2 (t.take 2) &&
    match t.drop 2 with
    | '.' :: rest => isZone (rest.dropWhile isDecimal)
    | rest => isZone rest

def isClock (t : List Char) : Bool :=
  match t.takeWhile (· != ':'), t.dropWhile (· != ':') with
  | hours, ':' :: rest =>
    countIn 1 2 hours && countIn 2 2 (rest.take 2) && (rest.drop 2).head? == some ':'
      && isSeconds (rest.drop 3)
  | _, _ => false

/-- The day, and what follows it. -/
def isMoment (t : List Char) : Bool :=
  match splitAt '-' t with
  | year :: month :: rest =>
    let after := ['-'].intercalate rest
    let day := after.takeWhile isDecimal
    let clock := after.drop day.length
    countIn 4 4 year && countIn 1 2 month && countIn 1 2 day &&
      match clock with
      | [] => month.length == 2 && day.length == 2 && rest.length == 1
      | c :: others =>
        if c == 'T' || c == 't' then isClock others
        else if c == ' ' || c == '\t' then isClock (others.dropWhile fun d => d == ' ' || d == '\t')
        else false
  | _ => false

/-! ## Values -/

/-- The value of a text without quotes; nothing if it is a mark. -/
def read (t : List Char) : Option Value :=
  let word := String.ofList t
  if marks.contains word then none
  else if nothings.contains word then some .null
  else if truths.contains word then some (.bool true)
  else if falsehoods.contains word then some (.bool false)
  else
    match int? t with
    | some n => some (.int n)
    | none => match real? t with
      | some x => some (.real x)
      | none => some (.text word)

/-- Whether the text, written without quotes, is read as itself. -/
def isText (t : List Char) : Bool :=
  match read t with
  | some (.text _) => !isMoment t
  | _ => false

end MappingFlow.Yaml.Scalar
