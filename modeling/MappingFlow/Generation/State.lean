/-
  MappingFlow.Generation.State — what a generator has written and noted so far.

  One generator serves several structures. It keeps the paths of the files it wrote, the
  errors and warnings it noted, and the lines it printed; a step that fails keeps what
  was done before it.
-/

import MappingFlow.Document.Access
import MappingFlow.Document.Json.Writer
import MappingFlow.Storage.Basic

namespace MappingFlow.Generation

/-- The moment at which files are written. -/
structure Moment where
  year : Nat
  month : Nat
  day : Nat
  hour : Nat
  minute : Nat
  second : Nat
  deriving DecidableEq

namespace Moment

def padded (width n : Nat) : String :=
  let ds := Nat.toDigits 10 n
  String.ofList (List.replicate (width - ds.length) '0' ++ ds)

def date (m : Moment) : String :=
  padded 4 m.year ++ "-" ++ padded 2 m.month ++ "-" ++ padded 2 m.day

def iso (m : Moment) : String :=
  m.date ++ "T" ++ padded 2 m.hour ++ ":" ++ padded 2 m.minute ++ ":" ++ padded 2 m.second

/-- The moment as a part of a file name. -/
def stamp (m : Moment) : String :=
  padded 4 m.year ++ padded 2 m.month ++ padded 2 m.day ++ "_" ++ padded 2 m.hour ++ padded 2 m.minute
    ++ padded 2 m.second

/-- The days from the first day of 1970 on, each year beginning in March. -/
def days (m : Moment) : Nat :=
  let y := if m.month ≤ 2 then m.year - 1 else m.year
  let month := (m.month + 9) % 12
  365 * y + y / 4 - y / 100 + y / 400 + (153 * month + 2) / 5 + m.day - 1 - 719468

/-- The seconds from the beginning of 1970 on. -/
def seconds (m : Moment) : Nat := 86400 * m.days + 3600 * m.hour + 60 * m.minute + m.second

end Moment

structure State where
  storage : Storage
  generated : List String
  errors : List String
  warnings : List String
  printed : List String

def State.start (s : Storage) : State := ⟨s, [], [], [], []⟩

abbrev Generating := ExceptT Fault (StateM State)

def warn (w : String) : Generating Unit := modify fun s => { s with warnings := s.warnings ++ [w] }

def reportError (e : String) : Generating Unit := modify fun s => { s with errors := s.errors ++ [e] }

def printLine (l : String) : Generating Unit := modify fun s => { s with printed := s.printed ++ [l] }

/-- Writes a document to a file of the folder; answers its path. -/
def save (folder : Path) (name : String) (v : Value) : Generating String := do
  let path := (folder.child name).toText
  let s ← get
  let storage ← s.storage.writeText path (Json.write Json.fileStyle v)
  set { s with storage := storage, generated := s.generated ++ [path] }
  return path

/-- Notes what is wrong with an expression, which has to be a text. -/
def reviewExpression (label : String) (v : Value) : Generating String := do
  let s ← v.textFor "upper"
  let found := Expression.complaints s.toList
  if !found.isEmpty then warn (label ++ ": " ++ (Value.texts (found.map (·.message))).display)
  return s

end MappingFlow.Generation
