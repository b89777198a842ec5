/-
  MappingFlow.Document.Yaml.Reader — reading a document from YAML text.

  Objects and lists are read from their layout or between brackets; texts without quotes,
  between quotes of either kind, or as indented blocks. Anchors, tags, directives and keys
  marked with a question mark are not understood, and a text with one of them is not read.

  `Place` is what is left of the text and where it stands: the column, and whether only
  blanks and marks stand before it in its line, so that a key may begin here.
-/

import MappingFlow.Decimal.Shortest
import MappingFlow.Document.Yaml.Scalar
import MappingFlow.Text.Search

namespace MappingFlow.Yaml

structure Place where
  rest : List Char
  column : Nat
  atStart : Bool

namespace Place

def isBreak (c : Char) : Bool :=
  c == '\n' || c == '\r' || c.toNat == 0x85 || c.toNat == 0x2028 || c.toNat == 0x2029

/-- A blank, a line break or the end. -/
def isGap (c : Option Char) : Bool :=
  match c with
  | none => true
  | some c => c == ' ' || c == '\t' || isBreak c

def head? (p : Place) : Option Char := p.rest.head?

/-- Past characters that are in one line. -/
def skip (p : Place) (n : Nat) : Place := ⟨p.rest.drop n, p.column + n, false⟩

/-- Past blanks, remarks and line breaks. A new line may begin a key. -/
def seek (inRemark : Bool) (column : Nat) (start : Bool) : List Char → Place
  | [] => ⟨[], column, start⟩
  | c :: rest =>
    if isBreak c then seek false 0 true rest
    else if inRemark then seek true (column + 1) start rest
    else if c == ' ' then seek false (column + 1) start rest
    else if c == '#' then seek true (column + 1) start rest
    else ⟨c :: rest, column, start⟩

def forward (p : Place) : Place := seek false p.column p.atStart p.rest

/-- A line that separates documents. -/
def isDivider (p : Place) : Bool :=
  p.column == 0 && ("---".toList.isPrefixOf p.rest || "...".toList.isPrefixOf p.rest)
    && isGap (p.rest.drop 3).head?

def isEnd (p : Place) : Bool := p.rest.isEmpty || p.isDivider

/-- The mark, with a gap after it. -/
def isMark (p : Place) (m : Char) : Bool := p.head? == some m && isGap (p.rest.drop 1).head?

end Place

/-! ## Line breaks within a text -/

/-- What a run of line breaks means: one is a blank, more are one less. -/
def folded (breaks : Nat) : List Char :=
  if breaks = 1 then [' '] else List.replicate (breaks - 1) '\n'

/-- Past blanks and line breaks: how many breaks, and the column reached. -/
def skipBreaks (isBlank : Char → Bool) (breaks column : Nat) : List Char → Nat × Nat × List Char
  | [] => (breaks, column, [])
  | c :: rest =>
    if Place.isBreak c then skipBreaks isBlank (breaks + 1) 0 rest
    else if isBlank c then skipBreaks isBlank breaks (column + 1) rest
    else (breaks, column, c :: rest)

/-! ## Texts between quotes -/

def isQuotedBlank (c : Char) : Bool := c == ' ' || c == '\t'

/-- Blanks at a line break are dropped. -/
def quotedGap (p : Place) : List Char × Place :=
  let blanks := p.rest.takeWhile isQuotedBlank
  let after := p.rest.drop blanks.length
  if (after.head?.map Place.isBreak).getD false then
    let (breaks, column, rest) := skipBreaks isQuotedBlank 0 0 after
    (folded breaks, ⟨rest, column, false⟩)
  else (blanks, p.skip blanks.length)

/-- The rest of a text between single quotes. -/
def singleQuoted (fuel : Nat) (done : List Char) (p : Place) : Option (List Char × Place) :=
  match fuel with
  | 0 => none
  | fuel + 1 =>
    match p.rest with
    | [] => none
    | '\'' :: '\'' :: _ => singleQuoted fuel ('\'' :: done) (p.skip 2)
    | '\'' :: _ => some (done.reverse, p.skip 1)
    | c :: _ =>
      if isQuotedBlank c || Place.isBreak c then
        let (gap, p) := quotedGap p
        if p.isDivider then none else singleQuoted fuel (gap.reverse ++ done) p
      else singleQuoted fuel (c :: done) (p.skip 1)

def escapedLetters : List (Char × Char) :=
  [('0', '\x00'), ('a', '\x07'), ('b', '\x08'), ('t', '\t'), ('\t', '\t'), ('n', '\n'), ('v', '\x0b'),
   ('f', '\x0c'), ('r', '\r'), ('e', '\x1b'), (' ', ' '), ('"', '"'), ('\\', '\\'), ('/', '/'),
   ('N', '\u0085'), ('_', '\u00a0'), ('L', '\u2028'), ('P', '\u2029')]

/-- How many hexadecimal digits follow the letter. -/
def codeLength? : Char → Option Nat
  | 'x' => some 2
  | 'u' => some 4
  | 'U' => some 8
  | _ => none

/-- The rest of a text between double quotes. -/
def doubleQuoted (fuel : Nat) (done : List Char) (p : Place) : Option (List Char × Place) :=
  match fuel with
  | 0 => none
  | fuel + 1 =>
    match p.rest with
    | [] => none
    | '"' :: _ => some (done.reverse, p.skip 1)
    | '\\' :: c :: after =>
      match escapedLetters.lookup c with
      | some d => doubleQuoted fuel (d :: done) (p.skip 2)
      | none =>
        match codeLength? c with
        | some n =>
          let digits := after.take n
          if digits.length = n && digits.all Scalar.isHexadecimal then
            doubleQuoted fuel (Char.ofNat (Scalar.number 16 digits) :: done) (p.skip (n + 2))
          else none
        | none =>
          if Place.isBreak c then
            let (breaks, column, rest) := skipBreaks isQuotedBlank 0 0 (c :: after)
            doubleQuoted fuel (List.replicate (breaks - 1) '\n' ++ done) ⟨rest, column, false⟩
          else none
    | c :: _ =>
      if isQuotedBlank c || Place.isBreak c then
        let (gap, p) := quotedGap p
        if p.isDivider then none else doubleQuoted fuel (gap.reverse ++ done) p
      else doubleQuoted fuel (c :: done) (p.skip 1)

/-! ## Texts without quotes -/

def isBracket (c : Char) : Bool := c == ',' || c == '[' || c == ']' || c == '\x7b' || c == '\x7d'

/-- Whether a text without quotes may begin here. -/
def beginsPlain (inBrackets : Bool) (p : Place) : Bool :=
  match p.rest with
  | [] => false
  | c :: rest =>
    if Place.isGap (some c) || isBracket c || "#&*!|>'\"%@\x60".toList.contains c then false
    else if c == '-' then !Place.isGap rest.head?
    else if c == '?' || c == ':' then !inBrackets && !Place.isGap rest.head?
    else true

/-- The characters up to a gap or a mark. -/
def plainWord (inBrackets : Bool) : List Char → List Char
  | [] => []
  | c :: rest =>
    let endsKey := c == ':' && (Place.isGap rest.head? || (inBrackets && (rest.head?.map isBracket).getD false))
    if Place.isGap (some c) || endsKey || (inBrackets && (isBracket c || c == '?')) then []
    else c :: plainWord inBrackets rest

/-- The rest of a text without quotes, which may go on in lines further in than `margin`. -/
def plainText (inBrackets : Bool) (margin : Int) (fuel : Nat) (done : List Char) (p : Place) :
    List Char × Place :=
  match fuel with
  | 0 => (done, p)
  | fuel + 1 =>
    let word := plainWord inBrackets p.rest
    if word.isEmpty || p.head? == some '#' then (done, p)
    else
      let done := done ++ word
      let p := p.skip word.length
      let blanks := p.rest.takeWhile (· == ' ')
      let after := p.skip blanks.length
      let (breaks, column, rest) := skipBreaks (· == ' ') 0 after.column after.rest
      let onward : Place := ⟨rest, column, 0 < breaks⟩
      if breaks = 0 then
        if blanks.isEmpty then (done, p)
        else
          let more := plainWord inBrackets after.rest
          if more.isEmpty || after.head? == some '#' then (done, after)
          else plainText inBrackets margin fuel (done ++ blanks) after
      else
        let goesOn := !onward.isDivider && onward.head? != some '#' && (inBrackets || margin < column)
          && !(plainWord inBrackets rest).isEmpty
        if goesOn then plainText inBrackets margin fuel (done ++ folded breaks) ⟨rest, column, false⟩
        else (done, onward)

/-! ## Indented blocks of text -/

structure BlockHeader where
  isFolded : Bool
  /-- Line breaks at the end: all are kept, none, or one. -/
  keeps : Option Bool
  further : Option Nat

def blockHeader? (t : List Char) : Option (BlockHeader × List Char) := do
  let first ← t.head?
  let signs := (t.drop 1).takeWhile fun c => !Place.isGap (some c)
  let keep := if signs.contains '+' then some true else if signs.contains '-' then some false else none
  let digits := signs.filter Scalar.isDecimal
  let others := signs.filter fun c => !Scalar.isDecimal c
  if digits.length > 1 || others.length > 1 || digits.contains '0' then none
  if !others.all (fun c => c == '+' || c == '-') then none
  let remark := ((t.drop (1 + signs.length)).dropWhile isQuotedBlank)
  let after ← match remark with
    | [] => some []
    | c :: rest =>
      if Place.isBreak c then some rest
      else if c == '#' then some ((rest.dropWhile fun d => !Place.isBreak d).drop 1)
      else none
  return (⟨first == '>', keep, digits.head?.map Scalar.digitValue⟩, after)

def takeLine (t : List Char) : List Char × List Char :=
  (t.takeWhile fun c => !Place.isBreak c, (t.dropWhile fun c => !Place.isBreak c).drop 1)

/-- How far in the first line that is not blank stands. -/
def firstIndent (fuel : Nat) (t : List Char) : Nat :=
  match fuel with
  | 0 => 0
  | fuel + 1 =>
    let (line, rest) := takeLine t
    let blanks := line.takeWhile (· == ' ')
    if blanks.length = line.length && !rest.isEmpty then max blanks.length (firstIndent fuel rest)
    else blanks.length

/-- The lines of the block without their indentation, and what follows it. -/
def blockLines (fuel indent : Nat) (t : List Char) : List (List Char) × List Char :=
  match fuel with
  | 0 => ([], t)
  | fuel + 1 =>
    if t.isEmpty then ([], [])
    else
      let (line, rest) := takeLine t
      let blanks := (line.takeWhile (· == ' ')).length
      if blanks = line.length && blanks ≤ indent then
        let (lines, after) := blockLines fuel indent rest
        ([] :: lines, after)
      else if blanks < indent then ([], t)
      else
        let (lines, after) := blockLines fuel indent rest
        (line.drop indent :: lines, after)

/-- Joins lines; a break between two lines that do not begin with a blank is folded. -/
def joinFolded : List (List Char) → List Char
  | [] => []
  | [line] => line
  | line :: next :: rest =>
    let isText (l : List Char) := !l.isEmpty && !(l.head?.map isQuotedBlank).getD false
    let gap := if isText line && isText next then [' ']
      else if isText line && next.isEmpty then []
      else ['\n']
    line ++ gap ++ joinFolded (next :: rest)

def blockText (h : BlockHeader) (lines : List (List Char)) : List Char :=
  let body := (lines.reverse.dropWhile List.isEmpty).reverse
  let trailing := lines.length - body.length
  let text := if h.isFolded then joinFolded body else Text.join ['\n'] body
  let final := if body.isEmpty then 0 else 1
  match h.keeps with
  | some true => text ++ List.replicate (trailing + final) '\n'
  | some false => text
  | none => text ++ List.replicate final '\n'

def block? (margin : Int) (p : Place) : Option (Value × Place) := do
  let (h, after) ← blockHeader? p.rest
  let least := (margin + 1).toNat
  let fuel := after.length + 1
  let indent := match h.further with
    | some n => (max margin 0).toNat + n
    | none => max (max least 1) (firstIndent fuel after)
  let (lines, rest) := blockLines fuel indent after
  return (.text (String.ofList (blockText h lines)), ⟨rest, 0, true⟩)

/-! ## Documents -/

/-- A value as the key of an object; objects and lists are none. -/
def keyText : Value → Option String
  | .text s => some s
  | .null => some "null"
  | .bool b => some (if b then "true" else "false")
  | .int n => some (toString n)
  | .real x => some x.toText
  | _ => none

/-- A value in one piece: a text with or without quotes. -/
def scalar? (inBrackets : Bool) (margin : Int) (p : Place) : Option (Value × Place) :=
  let fuel := p.rest.length + 1
  match p.head? with
  | some '\'' => (singleQuoted fuel [] (p.skip 1)).map fun r => (.text (String.ofList r.1), r.2)
  | some '"' => (doubleQuoted fuel [] (p.skip 1)).map fun r => (.text (String.ofList r.1), r.2)
  | _ =>
    if beginsPlain inBrackets p then
      let (t, after) := plainText inBrackets margin fuel [] p
      (Scalar.read t).map fun v => (v, after)
    else none

/-- How many lines were passed is told by the characters between two places. -/
def inOneLine (before after : Place) : Bool :=
  !(before.rest.take (before.rest.length - after.rest.length)).any Place.isBreak

mutual

/-- A value between brackets. -/
def flowNode (fuel : Nat) (p : Place) : Option (Value × Place) :=
  match fuel with
  | 0 => none
  | fuel + 1 =>
    let p := p.forward
    match p.head? with
    | some '[' => flowItems fuel [] (p.skip 1)
    | some '\x7b' => flowFields fuel [] (p.skip 1)
    | _ => scalar? true (-1) p

/-- The rest of a list between brackets. An entry may be a key with its value. -/
def flowItems (fuel : Nat) (done : List Value) (p : Place) : Option (Value × Place) :=
  match fuel with
  | 0 => none
  | fuel + 1 =>
    let p := p.forward
    if p.head? == some ']' then some (.list done, p.skip 1)
    else do
      let (v, p) ← flowNode fuel p
      let p := p.forward
      let (v, p) ← if p.head? == some ':' then do
          let key ← keyText v
          let (w, p) ← flowValue fuel (p.skip 1)
          pure (Value.object [(key, w)], p)
        else pure (v, p)
      let p := p.forward
      if p.head? == some ',' then flowItems fuel (done ++ [v]) (p.skip 1)
      else if p.head? == some ']' then some (.list (done ++ [v]), p.skip 1)
      else none

/-- The value after a colon between brackets; it may be left out. -/
def flowValue (fuel : Nat) (p : Place) : Option (Value × Place) :=
  match fuel with
  | 0 => none
  | fuel + 1 =>
    let p := p.forward
    if p.head? == some ',' || p.head? == some ']' || p.head? == some '\x7d' then some (.null, p)
    else flowNode fuel p

/-- The rest of an object between brackets. -/
def flowFields (fuel : Nat) (done : Fields) (p : Place) : Option (Value × Place) :=
  match fuel with
  | 0 => none
  | fuel + 1 =>
    let p := p.forward
    if p.head? == some '\x7d' then some (.object done, p.skip 1)
    else do
      let (k, p) ← flowNode fuel p
      let key ← keyText k
      let p := p.forward
      let (v, p) ← if p.head? == some ':' then flowValue fuel (p.skip 1) else pure (.null, p)
      let p := p.forward
      let done := done.insert key v
      if p.head? == some ',' then flowFields fuel done (p.skip 1)
      else if p.head? == some '\x7d' then some (.object done, p.skip 1)
      else none

/-- A value by its layout: it stands further in than `margin`, only a list that is the
value of a key may stand at the margin itself. -/
def node (fuel : Nat) (margin : Int) (atMargin : Bool) (p : Place) : Option (Value × Place) :=
  match fuel with
  | 0 => none
  | fuel + 1 =>
    let p := p.forward
    if p.isEnd then some (.null, p)
    else if (p.column : Int) ≤ margin && !(atMargin && (p.column : Int) = margin && p.isMark '-') then
      some (.null, p)
    else if p.isMark '-' then if p.atStart then items fuel p.column [] p else none
    else
      match p.head? with
      | some '|' => block? margin p
      | some '>' => block? margin p
      | _ => do
        let (v, after) ← piece fuel margin p
        let colon := after.skip (after.rest.takeWhile (· == ' ')).length
        if inOneLine p colon && colon.isMark ':' then
          if p.atStart then fields fuel p.column [] p else none
        else pure (v, after)

/-- A value in one piece or between brackets, before it is known whether it is a key. -/
def piece (fuel : Nat) (margin : Int) (p : Place) : Option (Value × Place) :=
  match fuel with
  | 0 => none
  | fuel + 1 =>
    match p.head? with
    | some '[' => flowNode fuel p
    | some '\x7b' => flowNode fuel p
    | _ => scalar? false margin p

/-- The rest of a list whose entries stand at the column. -/
def items (fuel column : Nat) (done : List Value) (p : Place) : Option (Value × Place) :=
  match fuel with
  | 0 => none
  | fuel + 1 => do
    let (v, p) ← node fuel column false ⟨p.rest.drop 1, p.column + 1, true⟩
    let p := p.forward
    let done := done ++ [v]
    if p.isEnd || p.column < column then pure (.list done, p)
    else if p.column = column then
      if p.isMark '-' then items fuel column done p else pure (.list done, p)
    else none

/-- The rest of an object whose keys stand at the column. -/
def fields (fuel column : Nat) (done : Fields) (p : Place) : Option (Value × Place) :=
  match fuel with
  | 0 => none
  | fuel + 1 => do
    let (k, after) ← piece fuel column p
    let key ← keyText k
    let colon := after.skip (after.rest.takeWhile (· == ' ')).length
    if !(inOneLine p colon && colon.isMark ':') then none
    let (v, p) ← node fuel column true (colon.skip 1)
    let p := p.forward
    let done := done.insert key v
    if p.isEnd || p.column < column then pure (.object done, p)
    else if p.column = column && p.atStart && !p.isMark '-' then fields fuel column done p
    else none

end

/-- A character that may stand in a document. -/
def isPrintable (c : Char) : Bool :=
  let n := c.toNat
  n == 9 || n == 10 || n == 13 || (32 ≤ n && n ≤ 126) || n == 0x85 || (0xA0 ≤ n && n ≤ 0xD7FF)
    || (0xE000 ≤ n && n ≤ 0xFFFD) || 0x10000 ≤ n

/-- Every line break is the same one. -/
def unifyBreaks : List Char → List Char
  | '\r' :: '\n' :: rest => '\n' :: unifyBreaks rest
  | '\r' :: rest => '\n' :: unifyBreaks rest
  | c :: rest => c :: unifyBreaks rest
  | [] => []

/-- What follows the document: nothing, or the line that ends it. -/
def isFinished (p : Place) : Bool :=
  let p := p.forward
  p.rest.isEmpty
    || (p.isDivider && p.head? == some '.' && (p.skip 3).forward.rest.isEmpty)

/-- The one document of a text; nothing if it cannot be read. -/
def read (t : List Char) : Option Value := do
  let t := unifyBreaks t
  if !t.all isPrintable then none
  let t := if t.head? == some '\ufeff' then t.drop 1 else t
  let start := (Place.mk t 0 true).forward
  let start := if start.isDivider && start.head? == some '-' then start.skip 3 else start
  let (v, p) ← node (3 * t.length + 8) (-1) false start
  if isFinished p then some v else none

end MappingFlow.Yaml
