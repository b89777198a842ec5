/-
  MappingFlow.Pattern.Template — what a match is replaced by.

  A template is text in which a backslash refers to a group (`\1`, `\g<2>`) or names a
  control character. A backslash before any other letter is an error, and so is a
  reference to a group the pattern does not have; the pattern need not match for that.
-/

import MappingFlow.Pattern.Basic
import MappingFlow.Text.Digit
import MappingFlow.Text.Quoted

namespace MappingFlow

inductive TemplatePiece where
  | text (c : Char)
  | group (index : Nat)
  deriving DecidableEq

inductive TemplateError where
  | unknownEscape (c : Char) (position : Nat)
  | unfinished (position : Nat)
  | noSuchGroup (index position : Nat)
  | noBracket (position : Nat)
  | noName (position : Nat)
  | openName (position : Nat)
  | badName (name : List Char) (position : Nat)
  | octalTooLarge (digits : List Char) (position : Nat)
  | unknownName (name : List Char)
  deriving DecidableEq

namespace TemplateError

def places (reason : String) (position : Nat) : String :=
  reason ++ " at position " ++ toString position

def message : TemplateError → String
  | unknownEscape c p => places (String.ofList ("bad escape \\".toList ++ [c])) p
  | unfinished p => places "bad escape (end of pattern)" p
  | noSuchGroup i p => places ("invalid group reference " ++ toString i) p
  | noBracket p => places "missing <" p
  | noName p => places "missing group name" p
  | openName p => places "missing >, unterminated name" p
  | badName n p => places ("bad character in group name " ++ String.ofList (Text.quoted n)) p
  | octalTooLarge ds p =>
    places ("octal escape value \\" ++ String.ofList ds ++ " outside of range 0-0o377") p
  | unknownName n => "unknown group name " ++ String.ofList (Text.quoted n)

end TemplateError

namespace TemplatePiece

def controlOf? : Char → Option Char
  | 'a' => some '\x07'
  | 'b' => some '\x08'
  | 'f' => some '\x0c'
  | 'n' => some '\n'
  | 'r' => some '\r'
  | 't' => some '\t'
  | 'v' => some '\x0b'
  | '\\' => some '\\'
  | _ => none

def isOctal (c : Char) : Bool := '0' ≤ c && c ≤ '7'

def isDecimal (c : Char) : Bool := '0' ≤ c && c ≤ '9'

def octalValue (ds : List Char) : Nat := ds.foldl (fun n c => 8 * n + (c.toNat - 48)) 0

/-- A name between angle brackets that reads as the name of a group, not as its number. -/
def isIdentifier : List Char → Bool
  | [] => false
  | c :: rest => Text.isWord c && !(Text.isDigit c) && rest.all Text.isWord

def groupNamed (groups : Nat) (name : List Char) (position : Nat) :
    Except TemplateError TemplatePiece :=
  if isIdentifier name then .error (.unknownName name)
  else
    match Text.readInteger name with
    | .ok (.ofNat i) => if i ≤ groups then .ok (group i) else .error (.noSuchGroup i position)
    | _ => .error (.badName name position)

def groupNumbered (groups : Nat) (digits : List Char) (position : Nat) :
    Except TemplateError TemplatePiece :=
  let i := Text.ofDigits (digits.map fun c => c.toNat - 48)
  if i ≤ groups then .ok (group i) else .error (.noSuchGroup i position)

/-- One piece off the front of a template, with the number of characters it took.
    `position` is where it stands. -/
def take (groups position : Nat) : List Char → Except TemplateError (TemplatePiece × Nat)
  | '\\' :: [] => .error (.unfinished position)
  | '\\' :: 'g' :: '<' :: rest =>
    let name := rest.takeWhile (· != '>')
    if name.length = rest.length then
      .error (if name.isEmpty then .noName (position + 3) else .openName (position + 3))
    else if name.isEmpty then .error (.noName (position + 3))
    else (groupNamed groups name (position + 3)).map (·, name.length + 4)
  | '\\' :: 'g' :: _ => .error (.noBracket (position + 2))
  | '\\' :: '0' :: rest =>
    let ds := (rest.take 2).takeWhile isOctal
    .ok (text (Char.ofNat (octalValue ds)), 2 + ds.length)
  | '\\' :: c :: rest =>
    if isDecimal c then
      let octal := c :: (rest.take 2).takeWhile isOctal
      if isOctal c && octal.length = 3 then
        if octalValue octal > 0o377 then .error (.octalTooLarge octal position)
        else .ok (text (Char.ofNat (octalValue octal)), 4)
      else
        let ds := c :: (rest.take 1).takeWhile isDecimal
        (groupNumbered groups ds (position + 1)).map (·, 1 + ds.length)
    else
      match controlOf? c with
      | some d => .ok (text d, 2)
      | none => if c.isAlpha then .error (.unknownEscape c position) else .ok (text '\\', 1)
  | c :: _ => .ok (text c, 1)
  | [] => .error (.unfinished position)

def readFrom (groups position skip : Nat) : List Char → Except TemplateError (List TemplatePiece)
  | [] => .ok []
  | c :: rest =>
    match skip with
    | n + 1 => readFrom groups (position + 1) n rest
    | 0 => do
      let (piece, size) ← take groups position (c :: rest)
      let pieces ← readFrom groups (position + 1) (size - 1) rest
      return piece :: pieces

end TemplatePiece

abbrev Template := List TemplatePiece

namespace Template

/-- Reads a template for a pattern with the given number of groups. -/
def read (groups : Nat) (t : List Char) : Except TemplateError Template :=
  TemplatePiece.readFrom groups 0 0 t

def plain (t : List Char) : Template := t.map .text

def expand (t : Template) (m : Match) : List Char :=
  t.flatMap fun
    | .text c => [c]
    | .group i => m.group i

end Template

/-- Every match replaced by the template. -/
def Pattern.substitute (p : Pattern) (t : Template) (source : List Char) : List Char :=
  p.replaceAll t.expand source

end MappingFlow
