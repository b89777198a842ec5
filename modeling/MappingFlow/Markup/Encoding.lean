/-
  MappingFlow.Markup.Encoding — the characters of a stored document.

  A byte order mark decides between UTF-8 and UTF-16. Without one the bytes are read in
  the encoding that the document declares in its first line, and as UTF-8 if it declares
  none. Bytes that mean nothing in the encoding make the document unreadable.
-/

import MappingFlow.Text.Case

namespace MappingFlow

inductive Encoding where
  | ascii
  | utf8
  | utf16 (bigEndian : Bool)
  | latin1
  | windows1252
  deriving DecidableEq

namespace Encoding

abbrev Bytes := List UInt8

/-- The characters of Windows-1252 where it differs from Latin-1: bytes 128 to 159. -/
def windowsRow : List (Option Char) :=
  [some '€', none, some '‚', some 'ƒ', some '„', some '…', some '†', some '‡',
   some 'ˆ', some '‰', some 'Š', some '‹', some 'Œ', none, some 'Ž', none,
   none, some '‘', some '’', some '“', some '”', some '•', some '–', some '—',
   some '˜', some '™', some 'š', some '›', some 'œ', none, some 'ž', some 'Ÿ']

def windowsChar? (b : UInt8) : Option Char :=
  if b < 128 || b ≥ 160 then some (Char.ofNat b.toNat)
  else (windowsRow[b.toNat - 128]?).join

/-! ## UTF-8 -/

def isTail (b : UInt8) : Bool := 0x80 ≤ b && b < 0xC0

def tailBits (b : UInt8) : Nat := b.toNat % 64

/-- One character off the front; overlong forms and halves of pairs are refused. -/
def utf8Step : Bytes → Option (Char × Bytes)
  | [] => none
  | a :: rest =>
    if a < 0x80 then some (Char.ofNat a.toNat, rest)
    else if 0xC2 ≤ a && a < 0xE0 then
      match rest with
      | b :: rest => if isTail b then some (Char.ofNat ((a.toNat % 32) * 64 + tailBits b), rest) else none
      | _ => none
    else if 0xE0 ≤ a && a < 0xF0 then
      match rest with
      | b :: c :: rest =>
        let n := ((a.toNat % 16) * 64 + tailBits b) * 64 + tailBits c
        if isTail b && isTail c && n ≥ 0x800 && !(0xD800 ≤ n && n < 0xE000) then some (Char.ofNat n, rest)
        else none
      | _ => none
    else if 0xF0 ≤ a && a < 0xF5 then
      match rest with
      | b :: c :: d :: rest =>
        let n := (((a.toNat % 8) * 64 + tailBits b) * 64 + tailBits c) * 64 + tailBits d
        if isTail b && isTail c && isTail d && n ≥ 0x10000 && n < 0x110000 then some (Char.ofNat n, rest)
        else none
      | _ => none
    else none

/-- `fuel` is at least the number of bytes. -/
def utf8From (fuel : Nat) (done : List Char) (bytes : Bytes) : Option (List Char) :=
  match fuel with
  | 0 => if bytes.isEmpty then some done.reverse else none
  | n + 1 =>
    if bytes.isEmpty then some done.reverse
    else
      match utf8Step bytes with
      | some (c, rest) => utf8From n (c :: done) rest
      | none => none

def decodeUtf8? (bytes : Bytes) : Option (List Char) := utf8From bytes.length [] bytes

/-! ## UTF-16 -/

/-- The 16-bit units of a text; an odd byte at the end is refused. -/
def units? (bigEndian : Bool) : Bytes → Option (List Nat)
  | [] => some []
  | [_] => none
  | a :: b :: rest => do
    let us ← units? bigEndian rest
    return (if bigEndian then a.toNat * 256 + b.toNat else b.toNat * 256 + a.toNat) :: us

def ofUnits? : List Nat → Option (List Char)
  | [] => some []
  | u :: rest =>
    if 0xD800 ≤ u && u < 0xDC00 then
      match rest with
      | v :: rest =>
        if 0xDC00 ≤ v && v < 0xE000 then do
          let cs ← ofUnits? rest
          return Char.ofNat (0x10000 + (u - 0xD800) * 0x400 + (v - 0xDC00)) :: cs
        else none
      | [] => none
    else if 0xDC00 ≤ u && u < 0xE000 then none
    else do
      let cs ← ofUnits? rest
      return Char.ofNat u :: cs

/-! ## Decoding -/

def decode? (e : Encoding) (bytes : Bytes) : Option (List Char) :=
  match e with
  | ascii => bytes.mapM fun b => if b < 128 then some (Char.ofNat b.toNat) else none
  | utf8 => decodeUtf8? bytes
  | utf16 bigEndian => (units? bigEndian bytes).bind ofUnits?
  | latin1 => some (bytes.map fun b => Char.ofNat b.toNat)
  | windows1252 => bytes.mapM windowsChar?

/-- The encoding of a name, without regard to case. -/
def named? (name : List Char) : Option Encoding :=
  let upper := String.ofList (Text.upper name)
  if ["UTF-8", "UTF8"].contains upper then some utf8
  else if ["ISO-8859-1", "ISO_8859-1", "ISO8859-1", "ISO-LATIN-1", "ISO LATIN 1", "LATIN1", "L1"].contains upper then
    some latin1
  else if ["WINDOWS-1252", "CP1252"].contains upper then some windows1252
  else if ["US-ASCII", "ASCII"].contains upper then some ascii
  else none

/-! ## Encoding -/

def utf8Bytes (c : Char) : Bytes :=
  let n := c.toNat
  let tail (k : Nat) : UInt8 := UInt8.ofNat (0x80 + n / k % 64)
  if n < 0x80 then [UInt8.ofNat n]
  else if n < 0x800 then [UInt8.ofNat (0xC0 + n / 64), tail 1]
  else if n < 0x10000 then [UInt8.ofNat (0xE0 + n / 0x1000), tail 64, tail 1]
  else [UInt8.ofNat (0xF0 + n / 0x40000), tail 0x1000, tail 64, tail 1]

def encodeUtf8 (t : List Char) : Bytes := t.flatMap utf8Bytes

def unitBytes (bigEndian : Bool) (u : Nat) : Bytes :=
  let high := UInt8.ofNat (u / 256)
  let low := UInt8.ofNat (u % 256)
  if bigEndian then [high, low] else [low, high]

def utf16Bytes (bigEndian : Bool) (c : Char) : Bytes :=
  let n := c.toNat
  if n < 0x10000 then unitBytes bigEndian n
  else
    let m := n - 0x10000
    unitBytes bigEndian (0xD800 + m / 0x400) ++ unitBytes bigEndian (0xDC00 + m % 0x400)

def windowsByte? (c : Char) : Option UInt8 :=
  match windowsRow.findIdx? (· == some c) with
  | some i => some (UInt8.ofNat (128 + i))
  | none => if c.toNat < 128 || (160 ≤ c.toNat && c.toNat < 256) then some (UInt8.ofNat c.toNat) else none

/-- The bytes of a text, if the encoding has all its characters. UTF-16 begins with a
    byte order mark. -/
def encode? (e : Encoding) (t : List Char) : Option Bytes :=
  match e with
  | ascii => t.mapM fun c => if c.toNat < 128 then some (UInt8.ofNat c.toNat) else none
  | utf8 => some (encodeUtf8 t)
  | utf16 bigEndian => some (unitBytes bigEndian 0xFEFF ++ t.flatMap (utf16Bytes bigEndian))
  | latin1 => t.mapM fun c => if c.toNat < 256 then some (UInt8.ofNat c.toNat) else none
  | windows1252 => t.mapM windowsByte?

end Encoding

end MappingFlow
