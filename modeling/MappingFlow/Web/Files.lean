/-
  MappingFlow.Web.Files — the files that a session lists, and the mappings in them.

  A listed file has a name, a path and a size. None of these has to be a text, since the
  entries of a session may hold anything.
-/

import MappingFlow.Mapping.Extraction
import MappingFlow.Web.Page

namespace MappingFlow.Web

/-- A size in units of 1024 bytes, with two places. -/
def sizeOf (bytes : Nat) : Value := .real ((Binary64.ofRatio false bytes 1024).roundPlaces 2)

def fileEntry (name path : String) (bytes : Nat) : Value :=
  .object [("name", .text name), ("path", .text path), ("size", sizeOf bytes)]

/-- A path has to be a text. -/
def pathOf : Value → Except Fault Path
  | .text s => .ok (.read s)
  | v => .error (.notPath v.kind)

/-- The mapping in a file. -/
def readMapping (path : Value) : Page Mapping := do
  let p ← pathOf path
  let s ← get
  match s.storage.read p.toText with
  | .ok content =>
    let m ← Mapping.ofBytes content
    return m
  | .error .nullInPath => throw (.fault .nullInPath)
  | .error _ => throw (.fault (.unreadableMapping p.toText))

end MappingFlow.Web
