/-
  MappingFlow.Text.Digit — the decimal digits of every script, and whole numbers
  written with them.

  A whole number may stand between blanks, may carry one sign, and may have single
  underscores between its digits (`readInteger`). One with more than `digitLimit`
  digits is refused before it is read.
-/

import MappingFlow.Text.Blank

namespace MappingFlow.Text

/-- The zero of each script that writes numbers in base ten; the nine digits after it
    follow in order. -/
def digitZeros : List Nat :=
  [0x660, 0x6f0, 0x7c0, 0x966, 0x9e6, 0xa66, 0xae6, 0xb66, 0xbe6, 0xc66, 0xce6, 0xd66,
   0xde6, 0xe50, 0xed0, 0xf20, 0x1040, 0x1090, 0x17e0, 0x1810, 0x1946, 0x19d0, 0x1a80,
   0x1a90, 0x1b50, 0x1bb0, 0x1c40, 0x1c50, 0xa620, 0xa8d0, 0xa900, 0xa9d0, 0xa9f0, 0xaa50,
   0xabf0, 0xff10, 0x104a0, 0x10d30, 0x11066, 0x110f0, 0x11136, 0x111d0, 0x112f0, 0x11450,
   0x114d0, 0x11650, 0x116c0, 0x11730, 0x118e0, 0x11950, 0x11c50, 0x11d50, 0x11da0,
   0x16a60, 0x16ac0, 0x16b50, 0x1d7ce, 0x1d7d8, 0x1d7e2, 0x1d7ec, 0x1d7f6, 0x1e140,
   0x1e2f0, 0x1e950, 0x1fbf0]

def digitValue? (c : Char) : Option Nat :=
  let n := c.toNat
  if 48 ≤ n && n ≤ 57 then some (n - 48)
  else if n < 128 then none
  else (digitZeros.find? fun z => z ≤ n && n < z + 10).map (n - ·)

def isDigit (c : Char) : Bool := (digitValue? c).isSome

/-- Digits in base ten, most significant first, with single underscores between them. -/
def readDigits? : List Char → Option (List Nat)
  | [] => none
  | [c] => (digitValue? c).map ([·])
  | c :: '_' :: rest => do
    let d ← digitValue? c
    let ds ← readDigits? rest
    return d :: ds
  | c :: rest => do
    let d ← digitValue? c
    let ds ← readDigits? rest
    return d :: ds

def digitLimit : Nat := 4300

inductive IntegerError
  | malformed
  | tooLong (digits : Nat)
  deriving DecidableEq

def ofDigits (ds : List Nat) : Nat := ds.foldl (fun n d => 10 * n + d) 0

def readUnsigned (t : List Char) : Except IntegerError Nat :=
  match readDigits? t with
  | none => .error .malformed
  | some ds => if ds.length > digitLimit then .error (.tooLong ds.length) else .ok (ofDigits ds)

def readInteger (t : List Char) : Except IntegerError Int :=
  match trim t with
  | '-' :: rest => (readUnsigned rest).map fun n => -(n : Int)
  | '+' :: rest => (readUnsigned rest).map Int.ofNat
  | rest => (readUnsigned rest).map Int.ofNat

end MappingFlow.Text
