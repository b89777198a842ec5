/-
  MappingFlow.Decimal.Binary64 — numbers with 53 significant bits, computed exactly.

  A finite number is `mantissa * 2 ^ exponent` in canonical form: the mantissa has 53
  bits, or the exponent is the least one. Every operation computes its exact result as
  a fraction and rounds it once, to the nearest number and to the even one of two
  (`ofRatio`).
-/

namespace MappingFlow

inductive Binary64 where
  | finite (negative : Bool) (mantissa : Nat) (exponent : Int)
  | infinite (negative : Bool)
  | nan
  deriving DecidableEq

namespace Binary64

def leastExponent : Int := -1074

def greatestExponent : Int := 971

def zero (negative : Bool) : Binary64 := .finite negative 0 leastExponent

/-- `num / den` to the nearest whole number, a half to the even one. -/
def roundDiv (num den : Nat) : Nat :=
  let q := num / den
  let twice := 2 * (num % den)
  if twice > den || (twice == den && q % 2 == 1) then q + 1 else q

/-- `num / den / 2 ^ e` as a fraction. -/
def scaled (num den : Nat) (e : Int) : Nat × Nat :=
  match e with
  | .ofNat k => (num, den * Nat.pow 2 k)
  | .negSucc k => (num * Nat.pow 2 (k + 1), den)

/-- The exponent that gives `num / den` a mantissa of 53 bits, or the least one. -/
def exponentFor (num den : Nat) : Int :=
  let guess : Int := Nat.log2 num - Nat.log2 den - 52
  let e := if guess < leastExponent then leastExponent else guess
  let (a, b) := scaled num den e
  if a / b < Nat.pow 2 52 && leastExponent < e then e - 1 else e

/-- The number nearest to `num / den`. -/
def ofRatio (negative : Bool) (num den : Nat) : Binary64 :=
  if num = 0 then zero negative
  else
    let e := exponentFor num den
    let (a, b) := scaled num den e
    let m := roundDiv a b
    let (m, e) := if m = Nat.pow 2 53 then (Nat.pow 2 52, e + 1) else (m, e)
    if e > greatestExponent then .infinite negative else .finite negative m e

def ofInt (n : Int) : Binary64 := ofRatio (n < 0) n.natAbs 1

/-- The number nearest to `digits * 10 ^ exponent`. Beyond the range of the type the
    power of ten is not formed. -/
def ofDecimal (negative : Bool) (digits : Nat) (exponent : Int) : Binary64 :=
  if digits = 0 then zero negative
  else
    let size : Int := (Nat.toDigits 10 digits).length + exponent
    if size > 310 then .infinite negative
    else if size < -330 then zero negative
    else
      match exponent with
      | .ofNat k => ofRatio negative (digits * Nat.pow 10 k) 1
      | .negSucc k => ofRatio negative digits (Nat.pow 10 (k + 1))

/-- A finite magnitude as a fraction. -/
def ratio (mantissa : Nat) (exponent : Int) : Nat × Nat :=
  match exponent with
  | .ofNat k => (mantissa * Nat.pow 2 k, 1)
  | .negSucc k => (mantissa, Nat.pow 2 (k + 1))

/-- A finite number times a whole number. -/
def timesNat (x : Binary64) (n : Nat) : Binary64 :=
  match x with
  | .finite negative m e =>
    let (a, b) := ratio m e
    ofRatio negative (a * n) b
  | other => other

/-- Rounded to `places` decimal places, a half of the exact value to the even digit. -/
def roundPlaces (x : Binary64) (places : Nat) : Binary64 :=
  match x with
  | .finite negative m e =>
    let (a, b) := ratio m e
    ofRatio negative (roundDiv (a * Nat.pow 10 places) b) (Nat.pow 10 places)
  | other => other

def isZero : Binary64 → Bool
  | .finite _ 0 _ => true
  | _ => false

/-- The whole number that a finite number equals, if it is one. -/
def toInt? : Binary64 → Option Int
  | .finite negative m e =>
    let (a, b) := ratio m e
    if a % b = 0 then some (if negative then -((a / b : Nat) : Int) else ((a / b : Nat) : Int))
    else none
  | _ => none

/-- The whole part of the magnitude. -/
def whole : Binary64 → Nat
  | .finite _ m e =>
    let (a, b) := ratio m e
    a / b
  | _ => 0

/-- Equality of numbers: zeros are equal whatever their sign, and what is not a number
    equals nothing. -/
def same : Binary64 → Binary64 → Bool
  | .nan, _ => false
  | _, .nan => false
  | x, y => x == y || (x.isZero && y.isZero)

/-- Strictly less, as numbers. -/
def lessThan : Binary64 → Binary64 → Bool
  | .finite n₁ m₁ e₁, .finite n₂ m₂ e₂ =>
    let (a, b) := ratio m₁ e₁
    let (c, d) := ratio m₂ e₂
    let x : Int := if n₁ then -((a * d : Nat) : Int) else ((a * d : Nat) : Int)
    let y : Int := if n₂ then -((c * b : Nat) : Int) else ((c * b : Nat) : Int)
    x < y
  | .infinite true, .infinite n => !n
  | .infinite true, .finite _ _ _ => true
  | .finite _ _ _, .infinite n => !n
  | _, _ => false

end Binary64

end MappingFlow
