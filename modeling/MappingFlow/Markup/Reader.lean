/-
  MappingFlow.Markup.Reader — reading the element tree of a document.

  `read?` refuses a document that is not well formed, one that uses a prefix without
  declaring it, and, if a limit is given, one whose elements are nested deeper than it
  allows. An entity in the text is replaced by its own elements and text.
-/

import MappingFlow.Markup.Element
import MappingFlow.Markup.Prolog
import MappingFlow.Text.Blank

namespace MappingFlow.Markup

/-! ## Namespaces -/

/-- Namespaces by prefix, latest first; the empty prefix is for names without one. -/
abbrev Scope := List (String × String)

/-- The prefix `xml` is always there. -/
def Scope.start : Scope := [("xml", "xml")]

/-- An attribute as written, its value resolved. -/
abbrev RawAttribute := RawName × String

def isDeclaration (a : RawAttribute) : Bool := a.1 == ⟨none, "xmlns"⟩ || a.1.pre == some "xmlns"

/-- A prefix cannot be declared empty, and `xmlns` cannot be declared at all. -/
def declare? (scope : Scope) (a : RawAttribute) : Option Scope :=
  if a.1.pre.isNone then some (("", a.2) :: scope)
  else if a.2 == "" || a.1.base == "xmlns" then none
  else if a.1.base == "xml" then some scope
  else some ((a.1.base, a.2) :: scope)

def elementName? (scope : Scope) (n : RawName) : Option Name :=
  match n.pre with
  | none => some ⟨(scope.lookup "").getD "", n.base⟩
  | some p => (scope.lookup p).map (⟨·, n.base⟩)

def attributeName? (scope : Scope) (n : RawName) : Option Name :=
  match n.pre with
  | none => some ⟨"", n.base⟩
  | some p => (scope.lookup p).map (⟨·, n.base⟩)

def allDistinct [BEq α] : List α → Bool
  | [] => true
  | a :: rest => !rest.contains a && allDistinct rest

/-! ## Start tags -/

structure StartTag where
  name : RawName
  attributes : List (RawName × List Char)
  isEmpty : Bool

/-- The attributes of a start tag, up to its end. -/
def attributesFrom? (fuel : Nat) (t : List Char) :
    Option (List (RawName × List Char) × Bool × List Char) :=
  match fuel with
  | 0 => none
  | n + 1 =>
    match skipSpace t with
    | '>' :: rest => some ([], false, rest)
    | '/' :: '>' :: rest => some ([], true, rest)
    | _ => do
      let rest ← someSpace? t
      let (name, rest) ← qualified? rest
      let rest ← after? "=" (skipSpace rest)
      let (value, rest) ← quotedText? (skipSpace rest)
      let (more, isEmpty, rest) ← attributesFrom? n rest
      return ((name, value) :: more, isEmpty, rest)

/-- A start tag whose bracket has been read. -/
def startTag? (t : List Char) : Option (StartTag × List Char) := do
  let (name, rest) ← qualified? t
  let (attributes, isEmpty, rest) ← attributesFrom? (rest.length + 1) rest
  return (⟨name, attributes, isEmpty⟩, rest)

def ruleFor? (p : Prolog) (owner key : RawName) : Option AttributeRule :=
  p.rules.find? fun r => r.owner == owner && r.key == key

def squeezeNames (s : String) : String :=
  String.ofList ([' '].intercalate ((s.toList.splitOn ' ').filter (!·.isEmpty)))

/-- The attributes an element has: those it states, then those it has by default. -/
def resolveAttributes? (p : Prolog) (tag : StartTag) : Option (List RawAttribute) := do
  let stated ← tag.attributes.mapM fun (n, t) => do
    let v ← attributeValue? p.entities t
    match ruleFor? p tag.name n with
    | some r => return (n, if r.isPlain then v else squeezeNames v)
    | none => return (n, v)
  let standing ← (p.rules.filter fun r =>
      r.owner == tag.name && !(stated.any fun a => a.1 == r.key)).filterMapM fun r =>
    match r.standard with
    | none => some none
    | some t => (attributeValue? p.entities t).map fun v =>
        some (r.key, if r.isPlain then v else squeezeNames v)
  if allDistinct (stated.map (·.1)) then return stated ++ standing else none

/-- The element without its content, and the scope of its content. -/
def openElement? (p : Prolog) (scope : Scope) (tag : StartTag) :
    Option (Name × List (Name × String) × Scope) := do
  let attributes ← resolveAttributes? p tag
  let scope ← (attributes.filter isDeclaration).foldlM declare? scope
  let name ← elementName? scope tag.name
  let attributes ← (attributes.filter (!isDeclaration ·)).mapM fun (n, v) =>
    (attributeName? scope n).map (·, v)
  if allDistinct (attributes.map (·.1)) then return (name, attributes, scope) else none

/-! ## Content -/

/-- A run of text up to the next markup. -/
def textRun? : List Char → Option (List Char)
  | [] => some []
  | '<' :: rest => some ('<' :: rest)
  | '&' :: rest => some ('&' :: rest)
  | ']' :: ']' :: '>' :: _ => none
  | c :: rest => if isChar c then textRun? rest else none

def characterSection? (t : List Char) : Option (List Char) := do
  let (body, rest) ← upTo? [']', ']', '>'] [] t
  if body.all isChar then some rest else none

/-- An end tag whose bracket and slash have been read. -/
def endTag? (name : RawName) (t : List Char) : Option (List Char) := do
  let (found, rest) ← qualified? t
  if found = name then after? ">" (skipSpace rest) else none

mutual

/-- Elements up to an end tag or the end of the text. `room` is how much deeper
    elements may be nested, if that is limited. -/
def contentFrom? (fuel : Nat) (p : Prolog) (scope : Scope) (room : Option Nat) (t : List Char) :
    Option (List Element × List Char) :=
  match fuel with
  | 0 => none
  | n + 1 =>
    match t with
    | [] => some ([], [])
    | '<' :: '/' :: _ => some ([], t)
    | '<' :: '!' :: '-' :: '-' :: rest => (comment? rest).bind (contentFrom? n p scope room)
    | '<' :: '!' :: rest =>
      ((after? "[CDATA[" rest).bind characterSection?).bind (contentFrom? n p scope room)
    | '<' :: '?' :: rest => (instruction? rest).bind (contentFrom? n p scope room)
    | '<' :: rest => do
      let (e, rest) ← elementFrom? n p scope room rest
      let (es, rest) ← contentFrom? n p scope room rest
      return (e :: es, rest)
    | '&' :: rest => do
      let (r, rest) ← Reference.take? rest
      match r with
      | .char _ => contentFrom? n p scope room rest
      | .entity name => do
        let text ← (p.entities.lookup name).join
        let others := { p with entities := p.entities.filter (·.1 != name) }
        let (es, left) ← contentFrom? n others scope room text
        if left.isEmpty then
          let (more, rest) ← contentFrom? n p scope room rest
          return (es ++ more, rest)
        else none
    | _ => (textRun? t).bind (contentFrom? n p scope room)

/-- An element whose bracket has been read. -/
def elementFrom? (fuel : Nat) (p : Prolog) (scope : Scope) (room : Option Nat) (t : List Char) :
    Option (Element × List Char) :=
  match fuel with
  | 0 => none
  | n + 1 =>
    if room = some 0 then none
    else do
      let (tag, rest) ← startTag? t
      let (name, attributes, inner) ← openElement? p scope tag
      if tag.isEmpty then return (.node name attributes [], rest)
      else
        let (children, rest) ← contentFrom? n p inner (room.map (· - 1)) rest
        let rest ← after? "</" rest
        let rest ← endTag? tag.name rest
        return (.node name attributes children, rest)

end

/-- Enough for every piece of markup of the text and of each entity once. -/
def contentFuel (p : Prolog) (t : List Char) : Nat :=
  t.length + (p.entities.flatMap fun e => e.2.getD []).length + 2 * p.entities.length + 3

def readText? (room : Option Nat) (t : List Char) : Option Element := do
  let (p, rest) ← prolog? (normalizeLines t)
  let rest ← after? "<" rest
  let (root, rest) ← elementFrom? (contentFuel p rest) p .start room rest
  let rest ← miscellany? (rest.length + 1) rest
  if rest.isEmpty then return root else none

def read? (room : Option Nat) (bytes : Encoding.Bytes) : Option Element :=
  (decode? bytes).bind (readText? room)

/-- How deep elements may be nested in a mapping document. -/
def depthLimit : Nat := 257

end MappingFlow.Markup
