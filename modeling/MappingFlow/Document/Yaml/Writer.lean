/-
  MappingFlow.Document.Yaml.Writer — writing a document as YAML text.

  Every entry has a line of its own; entries of a list that is the value of a key stand
  below the key, those of an object two columns further in. A text is written without
  quotes if it is then read as itself, between single quotes if that keeps all its
  characters, and between double quotes otherwise. Characters above ASCII are escaped.
  A blank beyond the 80th column is where a text goes on in a new line.

  `Sheet` is what is written so far and where the writing stands.
-/

import MappingFlow.Decimal.Shortest
import MappingFlow.Document.Yaml.Scalar
import MappingFlow.Text.Quoted

namespace MappingFlow.Yaml

structure Sheet where
  /-- The last character first. -/
  written : List Char
  column : Nat
  /-- A blank stands before this place. -/
  afterBlank : Bool
  /-- Only blanks and marks stand before this place in the line. -/
  atStart : Bool

namespace Sheet

def empty : Sheet := ⟨[], 0, true, true⟩

/-- Characters of a text. -/
def put (s : Sheet) (t : List Char) : Sheet :=
  { s with written := t.reverse ++ s.written, column := s.column + t.length }

def breakLine (s : Sheet) : Sheet := ⟨'\n' :: s.written, 0, true, true⟩

/-- Goes to the column, in a new line if this one is in use. -/
def indent (s : Sheet) (column : Nat) : Sheet :=
  let s := if !s.atStart || column < s.column || (s.column == column && !s.afterBlank) then s.breakLine else s
  if s.column < column then
    { s.put (List.replicate (column - s.column) ' ') with afterBlank := true }
  else s

/-- A mark, with a blank before it if it needs one. -/
def mark (s : Sheet) (m : Char) (needsBlank blankAfter keepsStart : Bool) : Sheet :=
  let s' := s.put (if s.afterBlank || !needsBlank then [m] else [' ', m])
  { s' with afterBlank := blankAfter, atStart := s.atStart && keepsStart }

def inText (s : Sheet) : Sheet := { s with afterBlank := false, atStart := false }

def text (s : Sheet) : String := String.ofList s.written.reverse

end Sheet

/-! ## The form of a text -/

def width : Nat := 80

/-- A character that needs no escape. -/
def isPlainChar (c : Char) : Bool := ' ' ≤ c && c ≤ '~'

def isSpaceOrBreak (c : Option Char) : Bool :=
  match c with
  | none => true
  | some c => c == ' ' || c == '\n' || c == '\t' || c == '\r' || c == '\x00' || c.toNat == 0x85
    || c.toNat == 0x2028 || c.toNat == 0x2029

/-- What could not stand at the beginning of a text without quotes. -/
def opensBadly (t : List Char) : Bool :=
  match t with
  | [] => false
  | c :: rest =>
    "#,[]\x7b\x7d&*!|>'\"%@\x60".toList.contains c
      || ((c == '?' || c == ':' || c == '-') && isSpaceOrBreak rest.head?)
      || "---".toList.isPrefixOf t || "...".toList.isPrefixOf t

/-- A colon before a blank, or a number sign after one, beyond the first character. -/
def hasMarkInside (previous : Char) : List Char → Bool
  | [] => false
  | c :: rest =>
    (c == ':' && isSpaceOrBreak rest.head?) || (c == '#' && isSpaceOrBreak (some previous))
      || hasMarkInside c rest

/-- The two characters next to each other somewhere. -/
def hasPair (a b : Char) : List Char → Bool
  | c :: d :: rest => (c == a && d == b) || hasPair a b (d :: rest)
  | _ => false

def isMultiline (t : List Char) : Bool := t.contains '\n'

/-- No character of the text needs an escape, a line break aside. -/
def isUnescaped (t : List Char) : Bool := t.all fun c => c == '\n' || isPlainChar c

def allowsPlain (t : List Char) : Bool :=
  isUnescaped t && !isMultiline t && !opensBadly t && t.head? != some ' ' && t.getLast? != some ' '
    && match t with
      | [] => true
      | c :: rest => !hasMarkInside c rest

def allowsSingle (t : List Char) : Bool :=
  isUnescaped t && !hasPair '\n' ' ' t && !hasPair ' ' '\n' t

inductive Form where
  | plain | single | double
  deriving DecidableEq

/-- A key that stands before its colon is never empty without quotes nor over lines. -/
def formOf (isKey : Bool) (t : List Char) : Form :=
  if Scalar.isText t && allowsPlain t && !(isKey && t.isEmpty) then .plain
  else if allowsSingle t && !(isKey && isMultiline t) then .single
  else .double

/-! ## Writing a text -/

/-- A single blank between words, beyond the width, becomes a new line. -/
def putBlanks (s : Sheet) (column : Nat) (folds : Bool) (count : Nat) : Sheet :=
  if count == 1 && width < s.column && folds then (s.indent column).inText
  else s.put (List.replicate count ' ')

/-- `count` blanks are waiting to be written. -/
def plainFrom (column : Nat) (folds : Bool) (s : Sheet) (count : Nat) : List Char → Sheet
  | [] => if count = 0 then s else putBlanks s column folds count
  | ' ' :: rest => plainFrom column folds s (count + 1) rest
  | c :: rest =>
    let s := if count = 0 then s else putBlanks s column folds count
    plainFrom column folds (s.put [c]) 0 rest

def writePlain (column : Nat) (folds : Bool) (s : Sheet) (t : List Char) : Sheet :=
  if t.isEmpty then s
  else
    let s := if s.afterBlank then s else s.put [' ']
    plainFrom column folds s.inText 0 t

/-- What is waiting to be written between single quotes. -/
inductive Waiting where
  | nothing
  | blanks (count : Nat) (atBeginning : Bool)
  | breaks (count : Nat)

def Waiting.put (column : Nat) (folds atEnd : Bool) (s : Sheet) : Waiting → Sheet
  | .nothing => s
  | .blanks count atBeginning =>
    if count == 1 && width < s.column && folds && !atBeginning && !atEnd then s.indent column
    else s.put (List.replicate count ' ')
  | .breaks count => ((List.range (count + 1)).foldl (fun s _ => s.breakLine) s).indent column

def singleFrom (column : Nat) (folds isFirst : Bool) (s : Sheet) (w : Waiting) : List Char → Sheet
  | [] => w.put column folds true s
  | c :: rest =>
    if c == ' ' then
      match w with
      | .blanks n b => singleFrom column folds false s (.blanks (n + 1) b) rest
      | w => singleFrom column folds false (w.put column folds false s) (.blanks 1 isFirst) rest
    else if c == '\n' then
      match w with
      | .breaks n => singleFrom column folds false s (.breaks (n + 1)) rest
      | w => singleFrom column folds false (w.put column folds false s) (.breaks 1) rest
    else
      let s := w.put column folds false s
      singleFrom column folds false (s.put (if c == '\'' then ['\'', '\''] else [c])) .nothing rest

def writeSingle (column : Nat) (folds : Bool) (s : Sheet) (t : List Char) : Sheet :=
  let s := singleFrom column folds true (s.mark '\'' true false false) .nothing t
  s.mark '\'' false false false

def escapeLetters : List (Char × Char) :=
  [('\x00', '0'), ('\x07', 'a'), ('\x08', 'b'), ('\t', 't'), ('\n', 'n'), ('\x0b', 'v'), ('\x0c', 'f'),
   ('\r', 'r'), ('\x1b', 'e'), ('"', '"'), ('\\', '\\'), ('\u0085', 'N'), ('\u00a0', '_'),
   ('\u2028', 'L'), ('\u2029', 'P')]

def upperHex (digits n : Nat) : List Char := (Text.hexDigits digits n).map Char.toUpper

def escape (c : Char) : List Char :=
  match escapeLetters.lookup c with
  | some letter => ['\\', letter]
  | none =>
    if c.toNat ≤ 0xFF then '\\' :: 'x' :: upperHex 2 c.toNat
    else if c.toNat ≤ 0xFFFF then '\\' :: 'u' :: upperHex 4 c.toNat
    else '\\' :: 'U' :: upperHex 8 c.toNat

/-- The rest of a text between double quotes, from position `i` of `length`; `held` are the
characters, the last one first, that are not written yet. -/
def doubleFrom (column : Nat) (folds : Bool) (length i : Nat) (held : List Char) (s : Sheet) :
    List Char → Sheet
  | [] => s.put held.reverse
  | c :: rest =>
    let isEscaped := !isPlainChar c || c == '"' || c == '\\'
    let s := if isEscaped then (s.put held.reverse).put (escape c) else s
    let held := if isEscaped then [] else held
    let isWide := if isEscaped then width + 1 < s.column else width < s.column + held.length
    let folding := folds && isWide && 0 < i && i + 1 < length && (c == ' ' || held.isEmpty)
    let s := if folding then ((s.put (held.reverse ++ ['\\'])).indent column).inText else s
    let next := if isEscaped then rest.head? else some c
    let s := if folding && next == some ' ' then s.put ['\\'] else s
    let kept := if folding then [] else held
    doubleFrom column folds length (i + 1) (if isEscaped then kept else c :: kept) s rest

def writeDouble (column : Nat) (folds : Bool) (s : Sheet) (t : List Char) : Sheet :=
  let s := doubleFrom column folds t.length 0 [] (s.mark '"' true false false) t
  s.mark '"' false false false

def writeText (column : Nat) (isKey : Bool) (s : Sheet) (t : List Char) : Sheet :=
  match formOf isKey t with
  | .plain => writePlain column (!isKey) s t
  | .single => writeSingle column (!isKey) s t
  | .double => writeDouble column (!isKey) s t

/-! ## Writing a document -/

/-- A number always has a point before its power of ten. -/
def realText (x : Binary64) : List Char :=
  match x with
  | .nan => ".nan".toList
  | .infinite negative => (if negative then "-.inf" else ".inf").toList
  | x =>
    let t := x.toText.toList
    if t.contains '.' || !t.contains 'e' then t
    else t.takeWhile (· != 'e') ++ ['.', '0'] ++ t.dropWhile (· != 'e')

/-- Two columns further in; the outermost entries stand at the margin. -/
def deeper : Option Nat → Nat
  | none => 0
  | some n => n + 2

/-- A key may stand before its colon if it is short, not empty, and in one line. -/
def isSimpleKey (key : List Char) : Bool := key.length + 5 < 128 && !key.isEmpty && !isMultiline key

def writeKey (column : Nat) (s : Sheet) (key : List Char) : Sheet :=
  let s := s.indent column
  if isSimpleKey key then (writeText (column + 2) true s key).mark ':' false false false
  else
    let s := writeText (column + 2) false (s.mark '?' true false true) key
    (s.indent column).mark ':' true false true

mutual

def writeAt (column : Option Nat) (isValue : Bool) (s : Sheet) : Value → Sheet
  | .null => writePlain 0 false s "null".toList
  | .bool b => writePlain 0 false s (if b then "true" else "false").toList
  | .int n => writePlain 0 false s (toString n).toList
  | .real x => writePlain 0 false s (realText x)
  | .text t => writeText (column.getD 0 + 2) false s t.toList
  | .list [] => (s.mark '[' true true false).mark ']' false false false
  | .list (x :: xs) =>
    let inner := if isValue && !s.atStart then column.getD 0 else deeper column
    writeItems inner s (x :: xs)
  | .object [] => (s.mark '\x7b' true true false).mark '\x7d' false false false
  | .object (f :: fs) => writeFields (deeper column) s (f :: fs)
termination_by structural v => v

def writeItems (column : Nat) (s : Sheet) : List Value → Sheet
  | [] => s
  | v :: rest =>
    let s := (s.indent column).mark '-' true false true
    writeItems column (writeAt (some column) false s v) rest
termination_by structural vs => vs

def writeFields (column : Nat) (s : Sheet) : List (String × Value) → Sheet
  | [] => s
  | f :: rest => writeFields column (writeField column s f) rest
termination_by structural fs => fs

def writeField (column : Nat) (s : Sheet) : String × Value → Sheet
  | (key, v) => writeAt (some column) true (writeKey column s key.toList) v
termination_by structural f => f

end

def write (v : Value) : String := ((writeAt none false .empty v).indent 0).text

end MappingFlow.Yaml
