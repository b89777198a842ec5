/-
  MappingFlow.Document.Json.Writer — writing a document as JSON text.

  The style says whether the text is laid out over lines, two columns further in at each
  level, and whether characters above ASCII are escaped; one beyond the first plane is
  then written as two halves.
-/

import MappingFlow.Decimal.Shortest
import MappingFlow.Document.Value
import MappingFlow.Text.Quoted

namespace MappingFlow.Json

structure Style where
  indented : Bool
  ascii : Bool

def escapeUnit (n : Nat) : List Char := '\\' :: 'u' :: Text.hexDigits 4 n

def escapeCode (c : Char) : List Char :=
  let n := c.toNat
  if n < 0x10000 then escapeUnit n
  else
    let m := n - 0x10000
    escapeUnit (0xD800 + m / 0x400) ++ escapeUnit (0xDC00 + m % 0x400)

def writeChar (ascii : Bool) (c : Char) : List Char :=
  if c == '"' then ['\\', '"']
  else if c == '\\' then ['\\', '\\']
  else if c == '\n' then ['\\', 'n']
  else if c == '\r' then ['\\', 'r']
  else if c == '\t' then ['\\', 't']
  else if c == '\x08' then ['\\', 'b']
  else if c == '\x0c' then ['\\', 'f']
  else if c.toNat < 32 then escapeCode c
  else if ascii && c.toNat > 126 then escapeCode c
  else [c]

def writeText (ascii : Bool) (s : String) : String :=
  String.ofList ('"' :: s.toList.flatMap (writeChar ascii) ++ ['"'])

def writeReal : Binary64 → String
  | .nan => "NaN"
  | .infinite negative => if negative then "-Infinity" else "Infinity"
  | x => x.toText

/-- A line break and the blanks that begin the next line. -/
def newLine (level : Nat) : String := String.ofList ('\n' :: List.replicate (2 * level) ' ')

/-- Members between brackets, at the given level. -/
def bracket (style : Style) (level : Nat) (opening closing : String) (members : List String) : String :=
  if members.isEmpty then opening ++ closing
  else if style.indented then
    opening ++ newLine (level + 1) ++ ("," ++ newLine (level + 1)).intercalate members
      ++ newLine level ++ closing
  else opening ++ ", ".intercalate members ++ closing

mutual

def writeAt (style : Style) (level : Nat) : Value → String
  | .null => "null"
  | .bool b => if b then "true" else "false"
  | .int n => toString n
  | .real x => writeReal x
  | .text s => writeText style.ascii s
  | .list xs => bracket style level "[" "]" (writeItems style (level + 1) xs)
  | .object fs => bracket style level "\x7b" "\x7d" (writeFields style (level + 1) fs)
termination_by structural v => v

def writeItems (style : Style) (level : Nat) : List Value → List String
  | [] => []
  | v :: rest => writeAt style level v :: writeItems style level rest
termination_by structural vs => vs

def writeFields (style : Style) (level : Nat) : List (String × Value) → List String
  | [] => []
  | f :: rest => writeField style level f :: writeFields style level rest
termination_by structural fs => fs

def writeField (style : Style) (level : Nat) : String × Value → String
  | (key, v) => writeText style.ascii key ++ ": " ++ writeAt style level v
termination_by structural f => f

end

def write (style : Style) (v : Value) : String := writeAt style 0 v

/-- Laid out over lines, characters as they are: the form of every file written. -/
def fileStyle : Style := ⟨true, false⟩

/-- On one line, characters as they are. -/
def lineStyle : Style := ⟨false, false⟩

/-- Laid out over lines, ASCII only: the form of packaged and downloaded documents. -/
def packageStyle : Style := ⟨true, true⟩

end MappingFlow.Json
