/-
  MappingFlow.Command.Console — what the command line works on: files, and the lines it
  has printed.
-/

import MappingFlow.Storage.Basic

namespace MappingFlow.Command

structure Console where
  storage : Storage
  printed : List String

/-- A failure keeps what was printed and written before it. -/
abbrev Running := ExceptT Fault (StateM Console)

def Console.start (s : Storage) : Console := ⟨s, []⟩

/-- Each line with its line break. -/
def Console.text (c : Console) : String := String.join (c.printed.map (· ++ "\n"))

def say (line : String) : Running Unit := modify fun c => { c with printed := c.printed ++ [line] }

def sayAll (lines : List String) : Running Unit :=
  modify fun c => { c with printed := c.printed ++ lines }

/-- The first entries, and how many more there are. -/
def sayFirst (limit : Nat) (ending : String) (entries : List String) : Running Unit := do
  sayAll ((entries.take limit).map ("  - " ++ ·))
  if limit < entries.length then
    say ("  ... y " ++ toString (entries.length - limit) ++ ending)

def thickRule : String := String.ofList (List.replicate 60 '=')

def thinRule : String := String.ofList (List.replicate 60 '-')

end MappingFlow.Command
