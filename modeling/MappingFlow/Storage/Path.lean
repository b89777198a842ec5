/-
  MappingFlow.Storage.Path — names of files and folders.

  A path is read part by part: empty parts and single dots are dropped, double dots
  stay. The ending of a file name begins at its last dot, unless the name begins or ends
  there.
-/

import MappingFlow.Text.Search

namespace MappingFlow

structure Path where
  isAbsolute : Bool
  parts : List String
  deriving DecidableEq

namespace Path

def read (s : String) : Path where
  isAbsolute := s.toList.head? == some '/'
  parts := ((Text.split ['/'] s.toList).filter fun p => !p.isEmpty && p != ['.']).map String.ofList

/-- A path with no parts is the current folder. -/
def toText (p : Path) : String :=
  if p.isAbsolute then "/" ++ "/".intercalate p.parts
  else if p.parts.isEmpty then "."
  else "/".intercalate p.parts

/-- The second path inside the first. -/
def join (p q : Path) : Path := if q.isAbsolute then q else { p with parts := p.parts ++ q.parts }

def child (p : Path) (name : String) : Path := p.join (.read name)

/-- The last part. -/
def name (p : Path) : String := p.parts.getLast?.getD ""

def parent (p : Path) : Path := { p with parts := p.parts.dropLast }

/-- What stands before the last dot, and the dot with what follows it. -/
def splitEnding (name : String) : String × String :=
  let after := (name.toList.reverse.takeWhile (· != '.')).reverse
  let before := name.toList.take (name.length - after.length - 1)
  if after.length = name.length || after.isEmpty || before.isEmpty then (name, "")
  else (String.ofList before, String.ofList ('.' :: after))

def ending (p : Path) : String := (splitEnding p.name).2

def stem (p : Path) : String := (splitEnding p.name).1

end Path

end MappingFlow
