/-
  MappingFlow.Storage.Basic — files and folders.

  A place is a list of names from the root. Every operation first finds out what is at a
  path (`Storage.locate`), going through the folders part by part, and fails with a cause
  that names the path as it was given.
-/

import MappingFlow.Fault
import MappingFlow.Markup.Encoding
import MappingFlow.Storage.Path

namespace MappingFlow

abbrev Place := List String

structure Storage where
  files : List (Place × Encoding.Bytes)
  /-- Besides the root, which is always there. -/
  folders : List Place

/-- What is found at a path. -/
inductive Located where
  | folder (place : Place)
  | file (place : Place) (content : Encoding.Bytes)
  /-- Nothing, but a folder to put something into. -/
  | free (place : Place)
  /-- A folder on the way is missing. -/
  | nowhere
  /-- A file stands where a folder should. -/
  | blocked

namespace Storage

def empty : Storage := ⟨[], []⟩

def isFolderAt (s : Storage) (p : Place) : Bool := p.isEmpty || s.folders.contains p

def fileAt? (s : Storage) (p : Place) : Option Encoding.Bytes := s.files.lookup p

/-- The place of the topmost folder, where absolute paths begin. -/
def top : Place := ["/"]

/-- `place` is a folder that exists. -/
def walk (s : Storage) (place : Place) : List String → Located
  | [] => .folder place
  | name :: rest =>
    if name = ".." then s.walk place.dropLast rest
    else
      let next := place ++ [name]
      if s.isFolderAt next then s.walk next rest
      else
        match s.fileAt? next with
        | some content => if rest.isEmpty then .file next content else .blocked
        | none => if rest.isEmpty then .free next else .nowhere

def locate (s : Storage) (p : Path) : Located :=
  if !p.isAbsolute then s.walk [] p.parts
  else if s.isFolderAt top then s.walk top p.parts
  else .nowhere

def holdsPath (s : Storage) (p : Path) : Bool :=
  match s.locate p with
  | .folder _ => true
  | .file _ _ => true
  | _ => false

def isFile (s : Storage) (p : Path) : Bool :=
  match s.locate p with
  | .file _ _ => true
  | _ => false

def isFolder (s : Storage) (p : Path) : Bool :=
  match s.locate p with
  | .folder _ => true
  | _ => false

/-- A file that is there keeps its position. -/
def putAt (s : Storage) (p : Place) (content : Encoding.Bytes) : Storage :=
  if (s.fileAt? p).isSome then
    { s with files := s.files.map fun f => if f.1 = p then (p, content) else f }
  else { s with files := s.files ++ [(p, content)] }

/-- No name may be longer than this, in bytes. -/
def nameLimit : Nat := 255

def hasLongName (p : Path) : Bool :=
  p.parts.any fun n => nameLimit < (Encoding.encodeUtf8 n.toList).length

/-- What makes a path unusable before anything is looked for. -/
def refuse (path : String) : Except Fault Unit :=
  if path.toList.contains '\x00' then .error .nullInPath
  else if hasLongName (.read path) then .error (.longName path)
  else .ok ()

/-- Creates the file or replaces its content. -/
def write (s : Storage) (path : String) (content : Encoding.Bytes) : Except Fault Storage := do
  refuse path
  match s.locate (.read path) with
  | .file place _ => return s.putAt place content
  | .free place => return s.putAt place content
  | .folder _ => .error (if path.isEmpty then .noSuchFile path else .isFolder path)
  | .nowhere => .error (.noSuchFile path)
  | .blocked => .error (.notFolder path)

def writeText (s : Storage) (path text : String) : Except Fault Storage :=
  s.write path (Encoding.encodeUtf8 text.toList)

def read (s : Storage) (path : String) : Except Fault Encoding.Bytes := do
  refuse path
  match s.locate (.read path) with
  | .file _ content => return content
  | .folder _ => .error (if path.isEmpty then .noSuchFile path else .isFolder path)
  | .free _ => .error (.noSuchFile path)
  | .nowhere => .error (.noSuchFile path)
  | .blocked => .error (.notFolder path)

def readText (s : Storage) (path : String) : Except Fault String := do
  let content ← s.read path
  match Encoding.decodeUtf8? content with
  | some t => return String.ofList t
  | none => .error .undecodable

def addFolder (s : Storage) (p : Place) : Storage :=
  if s.isFolderAt p then s else { s with folders := s.folders ++ [p] }

/-- Every part of the way becomes a folder; `place` is one already. -/
def addFolders (s : Storage) (place : Place) : List String → Storage
  | [] => s
  | name :: rest =>
    if name = ".." then s.addFolders place.dropLast rest
    else (s.addFolder (place ++ [name])).addFolders (place ++ [name]) rest

/-- Creates the folder and those it lies in. -/
def makeFolder (s : Storage) (path : String) : Except Fault Storage := do
  let p := Path.read path
  refuse p.toText
  match s.locate p with
  | .folder _ => return s
  | .free place => return s.addFolder place
  | .nowhere => return s.addFolders (if p.isAbsolute then top else []) p.parts
  | .file _ _ => .error (.fileExists p.toText)
  | .blocked => .error (.notFolder p.toText)

/-- Creates the folder, which has to lie in one that is there. -/
def makeOneFolder (s : Storage) (path : String) : Except Fault Storage := do
  let p := Path.read path
  refuse p.toText
  match s.locate p with
  | .nowhere => .error (.noSuchFile p.toText)
  | _ => s.makeFolder path

/-- Creates an empty file unless it is there. -/
def touch (s : Storage) (path : String) : Except Fault Storage :=
  match s.locate (.read path) with
  | .file _ _ => .ok s
  | _ => s.write path []

/-- The path of a file that is there and whose name has the ending, in either case. -/
def requireFile (s : Storage) (path ending : String) : Except Fault Path :=
  let p := Path.read path
  if !s.holdsPath p then .error (.missingInput path)
  else if !s.isFile p then .error (.inputNotFile path)
  else if Text.lower p.ending.toList = Text.lower ending.toList then .ok p
  else .error (.wrongEnding ending p.ending)

/-- Removes a file; nothing happens if there is none. -/
def remove (s : Storage) (path : String) : Storage :=
  match s.locate (.read path) with
  | .file place _ => { s with files := s.files.filter (·.1 != place) }
  | _ => s

/-- Whether anything is at a path as it is written: with a slash at its end it can only be
a folder. -/
def holds (s : Storage) (path : String) : Bool :=
  !path.isEmpty && s.holdsPath (.read path)
    && !(path.toList.getLast? == some '/' && s.isFile (.read path))

/-- The names of what lies directly in a folder. -/
def namesIn (s : Storage) (p : Path) : List String :=
  match s.locate p with
  | .folder place =>
    ((s.files.map (·.1) ++ s.folders).filter fun q => !q.isEmpty && q.dropLast == place).filterMap
      List.getLast?
  | _ => []

def placeText (p : Place) : String := "/".intercalate p

end Storage

end MappingFlow
