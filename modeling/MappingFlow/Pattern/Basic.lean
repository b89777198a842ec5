/-
  MappingFlow.Pattern.Basic — patterns of text, and where they match.

  A pattern is tried at one place of a text. It takes its choices in order: the first
  alternative before the second, a greedy repetition as far as it goes, a lazy one as
  little as it can. When what follows does not match, the last choice is taken back
  (`run`, with what follows as an argument). A repetition repeats one character class,
  so it ends with the text.
-/

import MappingFlow.Text.Blank
import MappingFlow.Text.Case

namespace MappingFlow

inductive Pattern where
  | nothing
  | one (accepts : Char → Bool)
  | seq (first next : Pattern)
  | alt (first second : Pattern)
  | many (greedy : Bool) (accepts : Char → Bool)
  | group (index : Nat) (body : Pattern)
  /-- What follows matches `body`; nothing is consumed. -/
  | ahead (body : Pattern)
  /-- The character before this place, if any, is not accepted. -/
  | notAfter (accepts : Char → Bool)
  /-- A word begins or ends here. -/
  | wordEdge
  /-- The text ends here, or after one more line break. -/
  | finish

/-- A stretch of a text, by what is to come at its start and at its end. -/
structure Span where
  start : List Char
  stop : List Char

def Span.text (s : Span) : List Char := s.start.take (s.start.length - s.stop.length)

/-- A place in a text: what was read, nearest character first, what is still to come,
    and the groups captured on the way, latest first. -/
structure Scan where
  before : List Char
  rest : List Char
  groups : List (Nat × Span)

namespace Pattern

def repeatFrom (greedy : Bool) (accepts : Char → Bool) (groups : List (Nat × Span))
    (k : Scan → Option Scan) (before : List Char) : List Char → Option Scan
  | [] => k ⟨before, [], groups⟩
  | c :: rest =>
    if accepts c then
      if greedy then
        match repeatFrom greedy accepts groups k (c :: before) rest with
        | some s => some s
        | none => k ⟨before, c :: rest, groups⟩
      else
        match k ⟨before, c :: rest, groups⟩ with
        | some s => some s
        | none => repeatFrom greedy accepts groups k (c :: before) rest
    else k ⟨before, c :: rest, groups⟩

def atWordEdge (s : Scan) : Bool :=
  (s.before.head?.any Text.isWord) != (s.rest.head?.any Text.isWord)

def run : Pattern → Scan → (Scan → Option Scan) → Option Scan
  | nothing, s, k => k s
  | one accepts, s, k =>
    match s.rest with
    | [] => none
    | c :: rest => if accepts c then k { s with before := c :: s.before, rest := rest } else none
  | seq p q, s, k => p.run s fun t => q.run t k
  | alt p q, s, k =>
    match p.run s k with
    | some t => some t
    | none => q.run s k
  | many greedy accepts, s, k => repeatFrom greedy accepts s.groups k s.before s.rest
  | group i p, s, k =>
    p.run s fun t => k { t with groups := (i, ⟨s.rest, t.rest⟩) :: t.groups }
  | ahead p, s, k => if (p.run s some).isSome then k s else none
  | notAfter accepts, s, k => if s.before.head?.any accepts then none else k s
  | wordEdge, s, k => if atWordEdge s then k s else none
  | finish, s, k => if s.rest = [] ∨ s.rest = ['\n'] then k s else none

end Pattern

/-- One match: the text before it, nearest character first, what it covers, and the
    text after it. -/
structure Match where
  before : List Char
  matched : List Char
  after : List Char
  groups : List (Nat × Span)

/-- The text of a group; group 0 is the whole match, and a group that took no part is
    empty. -/
def Match.group (m : Match) (i : Nat) : List Char :=
  if i = 0 then m.matched else ((m.groups.lookup i).map Span.text).getD []

namespace Pattern

def toMatch (before rest : List Char) (s : Scan) : Match :=
  ⟨before, (Span.mk rest s.rest).text, s.rest, s.groups⟩

/-- The match that begins at this place. -/
def at? (p : Pattern) (before rest : List Char) : Option Match :=
  (p.run ⟨before, rest, []⟩ some).map (toMatch before rest)

/-- The match that begins at this place and covers at least one character. -/
def atLeastOne? (p : Pattern) (before rest : List Char) : Option Match :=
  (p.run ⟨before, rest, []⟩ fun s => if s.rest.length < rest.length then some s else none).map
    (toMatch before rest)

def findFrom? (p : Pattern) (before : List Char) : List Char → Option Match
  | [] => p.at? before []
  | c :: rest =>
    match p.at? before (c :: rest) with
    | some m => some m
    | none => findFrom? p (c :: before) rest

/-- The first match in a text. -/
def find? (p : Pattern) (t : List Char) : Option Match := p.findFrom? [] t

def occursIn (p : Pattern) (t : List Char) : Bool := (p.find? t).isSome

def findAllFrom (p : Pattern) (before : List Char) (skip : Nat) : List Char → List (List Char)
  | [] => []
  | c :: rest =>
    match skip with
    | n + 1 => findAllFrom p (c :: before) n rest
    | 0 =>
      match p.atLeastOne? before (c :: rest) with
      | some m => m.matched :: findAllFrom p (c :: before) (m.matched.length - 1) rest
      | none => findAllFrom p (c :: before) 0 rest

/-- The texts of all matches that cover something, from left to right, none overlapping. -/
def findAll (p : Pattern) (t : List Char) : List (List Char) := p.findAllFrom [] 0 t

def replaceFrom (p : Pattern) (write : Match → List Char) (before : List Char) (skip : Nat) :
    List Char → List Char
  | [] => ((p.at? before []).map write).getD []
  | c :: rest =>
    match skip with
    | n + 1 => replaceFrom p write (c :: before) n rest
    | 0 =>
      match p.at? before (c :: rest) with
      | none => c :: replaceFrom p write (c :: before) 0 rest
      | some m =>
        match m.matched.length with
        | k + 1 => write m ++ replaceFrom p write (c :: before) k rest
        | 0 =>
          write m ++
            match p.atLeastOne? before (c :: rest) with
            | some longer =>
              write longer ++ replaceFrom p write (c :: before) (longer.matched.length - 1) rest
            | none => c :: replaceFrom p write (c :: before) 0 rest

/-- Every match, from left to right and none overlapping, replaced by what `write`
    makes of it. -/
def replaceAll (p : Pattern) (write : Match → List Char) (t : List Char) : List Char :=
  p.replaceFrom write [] 0 t

/-! ## Building patterns -/

def all : List Pattern → Pattern
  | [] => nothing
  | [p] => p
  | p :: q :: ps => seq p (all (q :: ps))

def any : List Pattern → Pattern
  | [] => nothing
  | [p] => p
  | p :: q :: ps => alt p (any (q :: ps))

def char (c : Char) : Pattern := one (· == c)

def literal (t : List Char) : Pattern := all (t.map char)

/-- The letters of a text, without regard to case. -/
def caseless (t : List Char) : Pattern := all (t.map fun c => one (Text.sameLetter c))

def oneOf (cs : List Char) : Pattern := one cs.contains

def blanks : Pattern := many true Text.isBlank

/-- One or more accepted characters, as many as there are. -/
def longest (accepts : Char → Bool) : Pattern := seq (one accepts) (many true accepts)

/-- One or more accepted characters, as few as will do. -/
def shortest (accepts : Char → Bool) : Pattern := seq (one accepts) (many false accepts)

def optional (p : Pattern) : Pattern := alt p nothing

def quoteMark : Pattern := oneOf ['\'', '"']

def isInLine (c : Char) : Bool := c != '\n'

/-- A text as a word of its own. -/
def wholeWord (t : List Char) : Pattern := all [wordEdge, literal t, wordEdge]

end Pattern

end MappingFlow
