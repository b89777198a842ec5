/-
  MappingFlow.Document.Json.Reader — reading a document from JSON text.

  Beyond the standard, `NaN`, `Infinity` and `-Infinity` are numbers. A whole number is
  exact, whatever its size; one with a fraction or an exponent is a binary number. A key
  that occurs twice has the last of its values. Control characters inside a text, and
  anything after the value, are errors.
-/

import MappingFlow.Decimal.Shortest
import MappingFlow.Document.Value
import MappingFlow.Text.Digit

namespace MappingFlow.Json

inductive ReadError where
  | malformed
  | integerTooLong (digits : Nat)
  deriving DecidableEq

def isSpace (c : Char) : Bool := c == ' ' || c == '\t' || c == '\n' || c == '\r'

def skipSpace (t : List Char) : List Char := t.dropWhile isSpace

/-! ## Texts -/

def hexValue? (c : Char) : Option Nat :=
  if '0' ≤ c && c ≤ '9' then some (c.toNat - 48)
  else if 'a' ≤ c && c ≤ 'f' then some (c.toNat - 87)
  else if 'A' ≤ c && c ≤ 'F' then some (c.toNat - 55)
  else none

def hexValue4? (a b c d : Char) : Option Nat := do
  let w ← hexValue? a
  let x ← hexValue? b
  let y ← hexValue? c
  let z ← hexValue? d
  return ((w * 16 + x) * 16 + y) * 16 + z

def isHighHalf (n : Nat) : Bool := 0xD800 ≤ n && n ≤ 0xDBFF

def isLowHalf (n : Nat) : Bool := 0xDC00 ≤ n && n ≤ 0xDFFF

/-- The character of a code point; a half of a pair that stands alone is replaced. -/
def charOf (n : Nat) : Char := if isHighHalf n || isLowHalf n then '�' else Char.ofNat n

def pairValue (high low : Nat) : Nat := 0x10000 + (high - 0xD800) * 0x400 + (low - 0xDC00)

def escapeOf? : Char → Option Char
  | '"' => some '"'
  | '\\' => some '\\'
  | '/' => some '/'
  | 'b' => some '\x08'
  | 'f' => some '\x0c'
  | 'n' => some '\n'
  | 'r' => some '\r'
  | 't' => some '\t'
  | _ => none

/-- The rest of a text whose opening quote has been read; `done` is what was read of it,
    last character first. -/
def textFrom (done : List Char) : List Char → Except ReadError (String × List Char)
  | [] => .error .malformed
  | '"' :: rest => .ok (String.ofList done.reverse, rest)
  | '\\' :: 'u' :: a :: b :: c :: d :: rest =>
    match hexValue4? a b c d with
    | none => .error .malformed
    | some n =>
      match rest with
      | '\\' :: 'u' :: e :: f :: g :: h :: rest' =>
        match hexValue4? e f g h with
        | some low =>
          if isHighHalf n && isLowHalf low then textFrom (Char.ofNat (pairValue n low) :: done) rest'
          else textFrom (charOf n :: done) ('\\' :: 'u' :: e :: f :: g :: h :: rest')
        | none => .error .malformed
      | rest => textFrom (charOf n :: done) rest
  | '\\' :: e :: rest =>
    match escapeOf? e with
    | some c => textFrom (c :: done) rest
    | none => .error .malformed
  | c :: rest => if c.toNat < 32 then .error .malformed else textFrom (c :: done) rest

/-! ## Numbers -/

def isAsciiDigit (c : Char) : Bool := '0' ≤ c && c ≤ '9'

def takeDigits (t : List Char) : List Char × List Char :=
  (t.takeWhile isAsciiDigit, t.dropWhile isAsciiDigit)

def natOf (ds : List Char) : Nat := Text.ofDigits (ds.map fun c => c.toNat - 48)

/-- The digits after a decimal point, if both are there. -/
def fractionOf (t : List Char) : List Char × List Char :=
  match t with
  | '.' :: rest => match takeDigits rest with
    | ([], _) => ([], t)
    | (ds, after) => (ds, after)
  | _ => ([], t)

/-- The exponent, if it is complete. -/
def exponentOf? (t : List Char) : Option (Int × List Char) :=
  match t with
  | e :: rest =>
    if e == 'e' || e == 'E' then
      let (negative, rest) : Bool × List Char :=
        match rest with
        | '-' :: r => (true, r)
        | '+' :: r => (false, r)
        | r => (false, r)
      match takeDigits rest with
      | ([], _) => none
      | (ds, after) => some (if negative then -(natOf ds : Int) else (natOf ds : Int), after)
    else none
  | [] => none

def unsignedNumber (negative : Bool) (t : List Char) : Except ReadError (Value × List Char) :=
  let whole : List Char × List Char :=
    match t with
    | '0' :: rest => (['0'], rest)
    | _ => takeDigits t
  match whole with
  | ([], _) => .error .malformed
  | (ds, rest) =>
    let (frac, rest') := fractionOf rest
    match exponentOf? rest' with
    | some (e, after) =>
      .ok (.real (.ofDecimal negative (natOf (ds ++ frac)) (e - frac.length)), after)
    | none =>
      if frac.isEmpty then
        if ds.length > Text.digitLimit then .error (.integerTooLong ds.length)
        else .ok (.int (if negative then -(natOf ds : Int) else (natOf ds : Int)), rest')
      else .ok (.real (.ofDecimal negative (natOf (ds ++ frac)) (-(frac.length : Int))), rest')

/-! ## Values -/

/-- The rest after a fixed word. -/
def word? (w : String) (t : List Char) : Option (List Char) :=
  if w.toList.isPrefixOf t then some (t.drop w.length) else none

def wordValues : List (String × Value) :=
  [("null", .null), ("true", .bool true), ("false", .bool false), ("NaN", .real .nan),
   ("Infinity", .real (.infinite false)), ("-Infinity", .real (.infinite true))]

def scalar (t : List Char) : Except ReadError (Value × List Char) :=
  match wordValues.findSome? fun (w, v) => (word? w t).map (v, ·) with
  | some r => .ok r
  | none =>
    match t with
    | '-' :: rest => unsignedNumber true rest
    | _ => unsignedNumber false t

mutual

/-- `fuel` bounds the depth of nesting and the number of members. -/
def valueFrom (fuel : Nat) (t : List Char) : Except ReadError (Value × List Char) :=
  match fuel with
  | 0 => .error .malformed
  | n + 1 =>
    match t with
    | '"' :: rest => do
      let (s, rest) ← textFrom [] rest
      return (.text s, rest)
    | '[' :: rest =>
      match skipSpace rest with
      | ']' :: after => .ok (.list [], after)
      | rest => do
        let (items, rest) ← itemsFrom n rest
        return (.list items, rest)
    | '\x7b' :: rest =>
      match skipSpace rest with
      | '\x7d' :: after => .ok (.object [], after)
      | rest => do
        let (fields, rest) ← fieldsFrom n rest
        return (.object (Fields.update [] fields), rest)
    | _ => scalar t

/-- Items up to the closing bracket; at least one. -/
def itemsFrom (fuel : Nat) (t : List Char) : Except ReadError (List Value × List Char) :=
  match fuel with
  | 0 => .error .malformed
  | n + 1 => do
    let (v, rest) ← valueFrom n t
    match skipSpace rest with
    | ',' :: rest => do
      let (vs, rest) ← itemsFrom n (skipSpace rest)
      return (v :: vs, rest)
    | ']' :: rest => return ([v], rest)
    | _ => .error .malformed

/-- Fields up to the closing brace; at least one. -/
def fieldsFrom (fuel : Nat) (t : List Char) : Except ReadError (Fields × List Char) :=
  match fuel with
  | 0 => .error .malformed
  | n + 1 =>
    match t with
    | '"' :: rest => do
      let (key, rest) ← textFrom [] rest
      match skipSpace rest with
      | ':' :: rest => do
        let (v, rest) ← valueFrom n (skipSpace rest)
        match skipSpace rest with
        | ',' :: rest => do
          let (fs, rest) ← fieldsFrom n (skipSpace rest)
          return ((key, v) :: fs, rest)
        | '\x7d' :: rest => return ([(key, v)], rest)
        | _ => .error .malformed
      | _ => .error .malformed
    | _ => .error .malformed

end

/-- Reads one document. -/
def read (t : List Char) : Except ReadError Value := do
  let t := skipSpace t
  let (v, rest) ← valueFrom (t.length + 1) t
  if (skipSpace rest).isEmpty then return v else .error .malformed

end MappingFlow.Json
