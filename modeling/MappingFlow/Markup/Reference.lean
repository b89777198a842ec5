/-
  MappingFlow.Markup.Reference — references to characters and to entities.

  A reference stands between an ampersand and a semicolon. In an attribute value a blank
  of any kind is written as a space unless it comes from a character reference, and an
  entity is replaced by its text, which is treated the same way. The text of an entity
  may refer to others; `depth` bounds the nesting, so an entity inside itself is an
  error.
-/

import MappingFlow.Markup.Name

namespace MappingFlow.Markup

/-- The text of each entity; none for one that is stored elsewhere. -/
abbrev Entities := List (String × Option (List Char))

inductive Reference where
  | char (c : Char)
  | entity (name : String)
  deriving DecidableEq

namespace Reference

def digitOf? (base : Nat) (c : Char) : Option Nat :=
  let n :=
    if '0' ≤ c && c ≤ '9' then c.toNat - 48
    else if 'a' ≤ c && c ≤ 'f' then c.toNat - 87
    else if 'A' ≤ c && c ≤ 'F' then c.toNat - 55
    else 16
  if n < base then some n else none

def number? (base : Nat) : List Char → Option Nat
  | [] => none
  | ds => ds.foldlM (fun n c => (digitOf? base c).map (n * base + ·)) 0

def ofCode? (code : Nat) : Option Reference :=
  if code < 0x110000 && !(0xD800 ≤ code && code < 0xE000) && isChar (Char.ofNat code) then
    some (char (Char.ofNat code))
  else none

def predefined : List (String × Char) :=
  [("lt", '<'), ("gt", '>'), ("amp", '&'), ("quot", '"'), ("apos", '\'')]

/-- What stands between the ampersand and the semicolon. -/
def read? : List Char → Option Reference
  | '#' :: 'x' :: ds => (number? 16 ds).bind ofCode?
  | '#' :: ds => (number? 10 ds).bind ofCode?
  | t =>
    match plainName? t with
    | some (name, []) =>
      let name := String.ofList name
      match predefined.lookup name with
      | some c => some (char c)
      | none => some (entity name)
    | _ => none

/-- A reference whose ampersand has been read, off the front. -/
def take? (t : List Char) : Option (Reference × List Char) := do
  let (body, rest) ← upTo? [';'] [] t
  let r ← read? body
  return (r, rest)

end Reference

/-! ## Attribute values -/

/-- `pending` is the part of a reference that has been read, last character first. -/
def normalize? (resolve : String → Option (List Char)) (pending : Option (List Char)) :
    List Char → Option (List Char)
  | [] => if pending.isSome then none else some []
  | c :: rest =>
    match pending with
    | some body =>
      if c = ';' then do
        let head ← match ← Reference.read? body.reverse with
          | .char d => some [d]
          | .entity name => resolve name
        let tail ← normalize? resolve none rest
        return head ++ tail
      else normalize? resolve (some (c :: body)) rest
    | none =>
      if c = '<' then none
      else if c = '&' then normalize? resolve (some []) rest
      else if isSpace c then (normalize? resolve none rest).map (' ' :: ·)
      else if isChar c then (normalize? resolve none rest).map (c :: ·)
      else none

def attributeText? (entities : Entities) (depth : Nat) (t : List Char) : Option (List Char) :=
  match depth with
  | 0 => none
  | n + 1 => normalize? (fun name => (entities.lookup name).join.bind (attributeText? entities n)) none t

/-- The value of an attribute from the text between its quotes. -/
def attributeValue? (entities : Entities) (t : List Char) : Option String :=
  (attributeText? entities (entities.length + 1) t).map String.ofList

/-! ## Entity texts -/

/-- The text of an entity from its declaration: references to characters are resolved,
    those to entities stay, and a percent sign is refused. -/
def entityText? (pending : Option (List Char)) : List Char → Option (List Char)
  | [] => if pending.isSome then none else some []
  | c :: rest =>
    match pending with
    | some body =>
      if c = ';' then do
        let isCode := body.reverse.head? == some '#'
        let head ← match ← Reference.read? body.reverse with
          | .char d => if isCode then some [d] else some ('&' :: body.reverse ++ [';'])
          | .entity _ => some ('&' :: body.reverse ++ [';'])
        let tail ← entityText? none rest
        return head ++ tail
      else entityText? (some (c :: body)) rest
    | none =>
      if c = '%' then none
      else if c = '&' then entityText? (some []) rest
      else if isChar c then (entityText? none rest).map (c :: ·)
      else none

end MappingFlow.Markup
