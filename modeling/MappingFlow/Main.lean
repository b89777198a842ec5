/-
  MappingFlow.Main — the program as it is run from a command line.

  What stands at the paths that are named is read first, then the program runs on that
  picture of the files, and last the files it wrote are put in place.
-/

import MappingFlow.Command.Basic
import Std.Time

open MappingFlow

/-- The beginnings of a path, the shortest first. -/
def MappingFlow.Path.beginnings (p : Path) : List Path :=
  (List.range (p.parts.length + 1)).map fun n => { p with parts := p.parts.take n }

def MappingFlow.Path.place (p : Path) : Place := if p.isAbsolute then Storage.top ++ p.parts else p.parts

def MappingFlow.Storage.pathOf (p : Place) : String :=
  match p with
  | "/" :: rest => "/" ++ "/".intercalate rest
  | parts => "/".intercalate parts

/-- The picture with what really stands at a path. What cannot be read as a file is a
folder, unless it would lie in a file. -/
def MappingFlow.Storage.look (s : Storage) (p : Path) : IO Storage := do
  match ← (IO.FS.readBinFile p.toText).toBaseIO with
  | .ok content => return s.putAt p.place content.toList
  | .error (.inappropriateType ..) =>
    return if (s.fileAt? p.parent.place).isSome then s else s.addFolder p.place
  | .error _ => return s

def MappingFlow.Storage.lookAlong (s : Storage) (path : String) : IO Storage :=
  (Path.read path).beginnings.foldlM (fun s p => s.look p) s

/-- Puts the files in place that were not there or had another content. -/
def MappingFlow.Storage.putInPlace (before after : Storage) : IO Unit := do
  for folder in after.folders do
    if !before.isFolderAt folder then IO.FS.createDirAll (Storage.pathOf folder)
  for (place, content) in after.files do
    if before.fileAt? place != some content then
      IO.FS.writeBinFile (Storage.pathOf place) ⟨content.toArray⟩

def now : IO Generation.Moment := do
  let t ← Std.Time.PlainDateTime.now
  return ⟨t.date.year.toInt.toNat, t.date.month.val.toNat, t.date.day.val.toNat, t.time.hour.val.toNat,
    t.time.minute.val.toNat, t.time.second.val.toNat⟩

/-- The paths that the words name. -/
def namedPaths (words : List String) : List String :=
  match Command.Options.read words with
  | .options o => [o.input, o.output] ++ o.logFile.toList
  | _ => []

def main (words : List String) : IO UInt32 := do
  let moment ← now
  let before ← (namedPaths words).foldlM (fun s p => s.lookAlong p) Storage.empty
  let (outcome, console) := (Command.program .standard .standard moment words).run (.start before)
  IO.print console.text
  before.putInPlace console.storage
  match outcome with
  | .ok n => return n.toUInt32
  | .error f =>
    IO.eprintln f.message
    return 1
