/-
  MappingFlow.Decimal.Shortest — the decimal text of a binary number.

  The digits are the fewest that read back as the number, and of those the nearest to
  it. Numbers from 10^-4 up to 10^16 are written positionally and always show a
  decimal point; the others have an exponent of at least two digits. `fixed` writes a
  given number of places instead.
-/

import MappingFlow.Decimal.Binary64

namespace MappingFlow.Binary64

/-- The exponent `k` with `10^k ≤ num / den < 10^(k+1)`. -/
def magnitude (num den : Nat) : Int :=
  if den ≤ num then ((Nat.toDigits 10 (num / den)).length : Int) - 1
  else
    let q := den / num
    let size := (Nat.toDigits 10 q).length
    if den % num = 0 && q = Nat.pow 10 (size - 1) then -((size - 1 : Nat) : Int) else -(size : Int)

/-- `digits * 10 ^ exponent` -/
structure Digits where
  digits : Nat
  exponent : Int
  deriving DecidableEq

/-- The numbers with `count` digits on either side of `num / den`, nearest first. -/
def neighbours (num den count : Nat) : List Digits :=
  let e := magnitude num den - (count : Int) + 1
  let (a, b) : Nat × Nat :=
    match e with
    | .ofNat k => (num, den * Nat.pow 10 k)
    | .negSucc k => (num * Nat.pow 10 (k + 1), den)
  let low := a / b
  let twice := 2 * (a % b)
  if twice < b || (twice == b && low % 2 == 0) then [⟨low, e⟩, ⟨low + 1, e⟩]
  else [⟨low + 1, e⟩, ⟨low, e⟩]

/-- The first of the candidates with `count`, `count + 1`, … digits that reads back. -/
def shortestFrom (x : Binary64) (num den count : Nat) : Nat → Digits
  | 0 => (neighbours num den count).headD ⟨0, 0⟩
  | more + 1 =>
    match (neighbours num den count).find? fun d => ofDecimal false d.digits d.exponent == x with
    | some d => d
    | none => shortestFrom x num den (count + 1) more

/-- The fewest digits that read back as a positive finite number. -/
def shortest (mantissa : Nat) (exponent : Int) : Digits :=
  let (num, den) := ratio mantissa exponent
  shortestFrom (.finite false mantissa exponent) num den 1 17

/-- Drops the zeros at the end; `fuel` bounds how many. -/
def Digits.trimmed : Nat → Digits → Digits
  | 0, d => d
  | fuel + 1, d =>
    if d.digits % 10 = 0 && d.digits ≠ 0 then trimmed fuel ⟨d.digits / 10, d.exponent + 1⟩ else d

def digitText (n : Nat) : List Char := Nat.toDigits 10 n

/-- At least two digits and always a sign. -/
def exponentText (e : Int) : List Char :=
  let ds := digitText e.natAbs
  (if e < 0 then '-' else '+') :: (if ds.length < 2 then '0' :: ds else ds)

def Digits.layout (d : Digits) : List Char :=
  let ds := digitText d.digits
  let k : Int := (ds.length : Int) - 1 + d.exponent
  if -4 ≤ k && k < 16 then
    match d.exponent with
    | .ofNat zeros => ds ++ List.replicate zeros '0' ++ ['.', '0']
    | .negSucc p =>
      let places := p + 1
      if places < ds.length then ds.take (ds.length - places) ++ ['.'] ++ ds.drop (ds.length - places)
      else ['0', '.'] ++ List.replicate (places - ds.length) '0' ++ ds
  else
    match ds with
    | [] => []
    | [c] => c :: 'e' :: exponentText k
    | c :: rest => c :: '.' :: rest ++ 'e' :: exponentText k

def toText : Binary64 → String
  | .nan => "nan"
  | .infinite negative => if negative then "-inf" else "inf"
  | .finite negative m e =>
    let body := if m = 0 then ['0', '.', '0'] else ((shortest m e).trimmed 20).layout
    String.ofList (if negative then '-' :: body else body)

/-- A decimal point and exactly `places` digits after it. -/
def fixedDigits (places n : Nat) : List Char :=
  let ds := digitText n
  let ds := List.replicate (places + 1 - ds.length) '0' ++ ds
  ds.take (ds.length - places) ++ ['.'] ++ ds.drop (ds.length - places)

def fixed (places : Nat) : Binary64 → String
  | .nan => "nan"
  | .infinite negative => if negative then "-inf" else "inf"
  | .finite negative m e =>
    let (a, b) := ratio m e
    let body := fixedDigits places (roundDiv (a * Nat.pow 10 places) b)
    String.ofList (if negative then '-' :: body else body)

end MappingFlow.Binary64
