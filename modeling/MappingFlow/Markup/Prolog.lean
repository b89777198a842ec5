/-
  MappingFlow.Markup.Prolog — what stands before the first element.

  A declaration of version and encoding, comments, instructions, and at most one
  document type. Of a document type only the part inside the document counts: the
  entities it declares and the attributes it gives a default; a file it names is not
  read.
-/

import MappingFlow.Markup.Encoding
import MappingFlow.Markup.Reference

namespace MappingFlow.Markup

/-- An attribute that an element has unless it says otherwise. `isPlain` is false for
    a value that is a list of names: there blanks are squeezed. -/
structure AttributeRule where
  owner : RawName
  key : RawName
  isPlain : Bool
  standard : Option (List Char)

structure Prolog where
  entities : Entities
  rules : List AttributeRule

def Prolog.empty : Prolog := ⟨[], []⟩

/-! ## Pieces -/

/-- A text between quotes of one kind. -/
def quotedText? : List Char → Option (List Char × List Char)
  | '"' :: rest => upTo? ['"'] [] rest
  | '\'' :: rest => upTo? ['\''] [] rest
  | _ => none

/-- A comment whose opening has been read: no two dashes inside it. -/
def comment? (t : List Char) : Option (List Char) := do
  let (body, rest) ← upTo? ['-', '-'] [] t
  if body.all isChar then after? ">" rest else none

/-- An instruction whose opening has been read; its name is not that of the declaration. -/
def instruction? (t : List Char) : Option (List Char) := do
  let (target, rest) ← plainName? t
  if Text.lower target = ['x', 'm', 'l'] then none
  else
    match after? "?>" rest with
    | some rest => some rest
    | none => do
      let rest ← someSpace? rest
      let (body, rest) ← upTo? ['?', '>'] [] rest
      if body.all isChar then some rest else none

/-! ## The declaration -/

def isEncodingPart (c : Char) : Bool := c.isAlphanum || c == '.' || c == '_' || c == '-'

def isEncodingName : List Char → Bool
  | [] => false
  | c :: rest => c.isAlpha && rest.all isEncodingPart

def isVersion : List Char → Bool
  | '1' :: '.' :: ds => !ds.isEmpty && ds.all Char.isDigit
  | _ => false

/-- `key = "value"` off the front. -/
def setting? (key : String) (t : List Char) : Option (List Char × List Char) := do
  let rest ← after? key t
  let rest ← after? "=" (skipSpace rest)
  quotedText? (skipSpace rest)

/-- A setting that need not be there, after at least one blank. -/
def optionalSetting? (key : String) (accepts : List Char → Bool) (t : List Char) :
    Option (Option (List Char) × List Char) :=
  match (someSpace? t).bind (after? key) with
  | none => some (none, t)
  | some _ => do
    let (value, rest) ← setting? key (skipSpace t)
    if accepts value then return (some value, rest) else none

/-- The declaration off the front: the encoding it names, if any, and the rest. -/
def declaration? (t : List Char) : Option (Option (List Char) × List Char) :=
  match (after? "<?xml" t).bind someSpace? with
  | none => some (none, t)
  | some rest => do
    let (version, rest) ← setting? "version" rest
    if isVersion version then
      let (encoding, rest) ← optionalSetting? "encoding" isEncodingName rest
      let (_, rest) ← optionalSetting? "standalone" (["yes".toList, "no".toList].contains ·) rest
      let rest ← after? "?>" (skipSpace rest)
      return (encoding, rest)
    else none

/-- The characters of a document, without a byte order mark. -/
def decode? : Encoding.Bytes → Option (List Char)
  | 0xEF :: 0xBB :: 0xBF :: rest => Encoding.utf8.decode? rest
  | 0xFF :: 0xFE :: rest => (Encoding.utf16 false).decode? rest
  | 0xFE :: 0xFF :: rest => (Encoding.utf16 true).decode? rest
  | bytes => do
    let first := bytes.map fun b => Char.ofNat b.toNat
    let (declared, _) ← declaration? first
    match declared with
    | none => Encoding.utf8.decode? bytes
    | some name => do
      let e ← Encoding.named? name
      e.decode? bytes

/-- A carriage return, alone or before a line feed, is a line feed. -/
def normalizeLines : List Char → List Char
  | [] => []
  | '\r' :: '\n' :: rest => '\n' :: normalizeLines rest
  | '\r' :: rest => '\n' :: normalizeLines rest
  | c :: rest => c :: normalizeLines rest

/-! ## The document type -/

/-- The name of a stored part, off the front. -/
def externalId? (t : List Char) : Option (List Char) :=
  match after? "SYSTEM" t with
  | some rest => do
    let rest ← someSpace? rest
    let (_, rest) ← quotedText? rest
    return rest
  | none => do
    let rest ← after? "PUBLIC" t
    let rest ← someSpace? rest
    let (_, rest) ← quotedText? rest
    let rest ← someSpace? rest
    let (_, rest) ← quotedText? rest
    return rest

/-- The value of an entity off the front; none if it is stored elsewhere. -/
def entityValue? (t : List Char) : Option (Option (List Char) × List Char) :=
  match quotedText? t with
  | some (text, rest) => (entityText? none text).map fun v => (some v, rest)
  | none => do
    let rest ← externalId? t
    match (someSpace? rest).bind (after? "NDATA") with
    | some rest => do
      let rest ← someSpace? rest
      let (_, rest) ← plainName? rest
      return (none, rest)
    | none => return (none, rest)

/-- An entity declaration whose opening has been read. -/
def entityRule? (p : Prolog) (t : List Char) : Option (Prolog × List Char) := do
  let rest ← someSpace? t
  let (isParameter, rest) ← match rest with
    | '%' :: rest => (someSpace? rest).map (true, ·)
    | _ => some (false, rest)
  let (name, rest) ← plainName? rest
  let rest ← someSpace? rest
  let (value, rest) ← entityValue? rest
  let rest ← after? ">" (skipSpace rest)
  let name := String.ofList name
  if isParameter || (p.entities.lookup name).isSome then return (p, rest)
  else return ({ p with entities := p.entities ++ [(name, value)] }, rest)

def typeWords : List String :=
  ["CDATA", "IDREFS", "IDREF", "ID", "ENTITIES", "ENTITY", "NMTOKENS", "NMTOKEN"]

/-- The type of an attribute off the front, and whether its values are plain. -/
def attributeType? (t : List Char) : Option (Bool × List Char) :=
  match typeWords.findSome? fun w => (after? w t).map (w, ·) with
  | some (w, rest) => some (w == "CDATA", rest)
  | none => do
    let t ← match after? "NOTATION" t with
      | some rest => someSpace? rest
      | none => some t
    let rest ← after? "(" t
    let (_, rest) ← upTo? [')'] [] rest
    return (false, rest)

def attributeStandard? (t : List Char) : Option (Option (List Char) × List Char) :=
  match (after? "#REQUIRED" t).orElse fun _ => after? "#IMPLIED" t with
  | some rest => some (none, rest)
  | none => do
    let t ← match after? "#FIXED" t with
      | some rest => someSpace? rest
      | none => some t
    let (value, rest) ← quotedText? t
    return (some value, rest)

/-- The attributes of a declaration, up to its end. -/
def attributeRules? (owner : RawName) (fuel : Nat) (t : List Char) :
    Option (List AttributeRule × List Char) :=
  match fuel with
  | 0 => none
  | n + 1 =>
    match after? ">" (skipSpace t) with
    | some rest => some ([], rest)
    | none => do
      let rest ← someSpace? t
      let (key, rest) ← qualified? rest
      let rest ← someSpace? rest
      let (isPlain, rest) ← attributeType? rest
      let rest ← someSpace? rest
      let (standard, rest) ← attributeStandard? rest
      let (more, rest) ← attributeRules? owner n rest
      return (⟨owner, key, isPlain, standard⟩ :: more, rest)

def attributeList? (p : Prolog) (t : List Char) : Option (Prolog × List Char) := do
  let rest ← someSpace? t
  let (owner, rest) ← qualified? rest
  let (rules, rest) ← attributeRules? owner (rest.length + 1) rest
  return ({ p with rules := p.rules ++ rules }, rest)

/-- A declaration that says nothing about entities or attributes. -/
def otherRule? (t : List Char) : Option (List Char) := do
  let rest ← someSpace? t
  let (_, rest) ← qualified? rest
  let rest ← someSpace? rest
  let (body, rest) ← upTo? ['>'] [] rest
  if body.isEmpty then none else some rest

/-- The part of a document type that stands between brackets, up to the closing one. -/
def innerType? (p : Prolog) (fuel : Nat) (t : List Char) : Option (Prolog × List Char) :=
  match fuel with
  | 0 => none
  | n + 1 =>
    let t := skipSpace t
    match t with
    | ']' :: rest => some (p, rest)
    | '%' :: rest => do
      let (_, rest) ← plainName? rest
      let rest ← after? ";" rest
      innerType? p n rest
    | _ =>
      match after? "<!--" t with
      | some rest => (comment? rest).bind (innerType? p n)
      | none =>
        match after? "<?" t with
        | some rest => (instruction? rest).bind (innerType? p n)
        | none =>
          match after? "<!ENTITY" t with
          | some rest => (entityRule? p rest).bind fun (p, rest) => innerType? p n rest
          | none =>
            match after? "<!ATTLIST" t with
            | some rest => (attributeList? p rest).bind fun (p, rest) => innerType? p n rest
            | none =>
              match (after? "<!ELEMENT" t).orElse fun _ => after? "<!NOTATION" t with
              | some rest => (otherRule? rest).bind (innerType? p n)
              | none => none

/-- A document type whose opening has been read. -/
def documentType? (t : List Char) : Option (Prolog × List Char) := do
  let rest ← someSpace? t
  let (_, rest) ← qualified? rest
  let rest ← match someSpace? rest with
    | some spaced =>
      if spaced.head? == some '[' || spaced.head? == some '>' then some spaced else externalId? spaced
    | none => some rest
  let (p, rest) ← match skipSpace rest with
    | '[' :: rest => innerType? .empty (rest.length + 1) rest
    | rest => some (.empty, rest)
  let rest ← after? ">" (skipSpace rest)
  return (p, rest)

/-- Blanks, comments and instructions off the front; fails on a broken one. -/
def miscellany? (fuel : Nat) (t : List Char) : Option (List Char) :=
  match fuel with
  | 0 => none
  | n + 1 =>
    let t := skipSpace t
    match after? "<!--" t with
    | some rest => (comment? rest).bind (miscellany? n)
    | none =>
      match after? "<?" t with
      | some rest => (instruction? rest).bind (miscellany? n)
      | none => some t

/-- Everything before the first element. -/
def prolog? (t : List Char) : Option (Prolog × List Char) := do
  let (_, rest) ← declaration? t
  let rest ← miscellany? (rest.length + 1) rest
  match after? "<!DOCTYPE" rest with
  | none => return (.empty, rest)
  | some rest => do
    let (p, rest) ← documentType? rest
    let rest ← miscellany? (rest.length + 1) rest
    return (p, rest)

end MappingFlow.Markup
