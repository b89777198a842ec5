/-
  MappingFlow.Conversion.State — what a conversion knows and has noted so far.

  One converter serves several mappings. Warnings and errors accumulate over all of
  them; the feeds and the casing of columns are those of the last mapping begun. A step
  that fails keeps what it noted before.
-/

import MappingFlow.Conversion.Rules
import MappingFlow.Mapping.Basic

namespace MappingFlow.Conversion

structure State where
  warnings : List String
  errors : List String
  /-- The instances that feed each instance, in the order of the connectors. -/
  feeds : List (String × List String)
  /-- The casing of each column, by its name in lower case. -/
  casing : List (String × String)
  /-- The last mapping begun. -/
  mapping : Option Mapping

def State.start : State := ⟨[], [], [], [], none⟩

abbrev Converting := ExceptT Fault (StateM State)

def warn (w : String) : Converting Unit := modify fun s => { s with warnings := s.warnings ++ [w] }

def reportError (e : String) : Converting Unit := modify fun s => { s with errors := s.errors ++ [e] }

/-! ## Feeds -/

def addFeed (feeds : List (String × List String)) (c : Connector) : List (String × List String) :=
  match feeds with
  | [] => [(c.target, [c.source])]
  | f :: rest => if f.1 = c.target then (f.1, f.2 ++ [c.source]) :: rest else f :: addFeed rest c

def feedsOf (cs : List Connector) : List (String × List String) := cs.foldl addFeed []

def setFeeds (cs : List Connector) : Converting Unit := modify fun s => { s with feeds := feedsOf cs }

def State.feedsInto (s : State) (name : String) : List String := (s.feeds.lookup name).getD []

/-- Without repetitions, in the order of first occurrence. -/
def distinct [BEq α] : List α → List α
  | [] => []
  | a :: rest => a :: (distinct rest).filter (!· == a)

/-- A source qualifier stands for the first source that feeds it; every other
    instance stands for itself. -/
def resolve (feeds : List (String × List String)) (m : Mapping) (name : String) : String :=
  match m.transformations.find? (·.name == name) with
  | some t =>
    if t.type = "Source Qualifier" then
      (((feeds.lookup name).getD []).find? fun i => m.sources.any (·.name == i)).getD name
    else name
  | none => name

/-- Needs a mapping that has been begun. -/
def resolveFeed (name : String) : Converting String := do
  let s ← get
  match s.mapping with
  | some m => return resolve s.feeds m name
  | none => throw .noMapping

end MappingFlow.Conversion
