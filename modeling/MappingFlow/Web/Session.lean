/-
  MappingFlow.Web.Session — what the web application remembers between two runs of a page.

  A session is a set of entries by name, any of which may be missing. The mapping that was
  read last is kept beside them as it is. `Slot` lists the entries that the pages use.
-/

import MappingFlow.Document.Access
import MappingFlow.Mapping.Basic

namespace MappingFlow.Web

inductive Slot where
  | files | loaded | configured | migrated | path | name | plan | config | pipeline | dataflow | report
  | datasets | errorCount | warningCount | duration | activeTab | migrations | selected | failure
  | failureTrace
  deriving DecidableEq

namespace Slot

def key : Slot → String
  | files => "xml_files"
  | loaded => "xml_loaded"
  | configured => "configured"
  | migrated => "migrated"
  | path => "xml_path"
  | name => "xml_name"
  | plan => "adf_data"
  | config => "config"
  | pipeline => "pipeline_json"
  | dataflow => "dataflow_json"
  | report => "report_md"
  | datasets => "datasets"
  | errorCount => "errors_count"
  | warningCount => "warnings_count"
  | duration => "migration_time"
  | activeTab => "active_tab"
  | migrations => "all_migrations"
  | selected => "selected_migration_idx"
  | failure => "migration_error"
  | failureTrace => "migration_error_trace"

end Slot

/-- The name of the entry that holds the mapping. -/
def parsedKey : String := "parsed_data"

structure Session where
  entries : Fields
  /-- The mapping read last: no entry, an empty one, or a mapping. -/
  parsed : Option (Option Mapping)

namespace Session

def empty : Session := ⟨[], none⟩

def get? (s : Session) (k : Slot) : Option Value := s.entries.get? k.key

def getD (s : Session) (k : Slot) (absent : Value) : Value := (s.get? k).getD absent

def set (s : Session) (k : Slot) (v : Value) : Session := { s with entries := s.entries.insert k.key v }

def setParsed (s : Session) (m : Option Mapping) : Session := { s with parsed := some m }

/-- Whether the entry is there and not empty. -/
def isSet (s : Session) (k : Slot) : Bool := (s.getD k .null).isPresent

/-- The entry, which has to be there. -/
def require (s : Session) (k : Slot) : Except Fault Value :=
  match s.get? k with
  | some v => .ok v
  | none => .error (.missingKey k.key)

/-- The entry is there, even if it is empty. -/
def has (s : Session) (k : Slot) : Bool := (s.get? k).isSome

/-- Sets the entry unless it is there. -/
def start (s : Session) (k : Slot) (v : Value) : Session := if s.has k then s else s.set k v

/-- The mapping, which has to be there. -/
def requireParsed (s : Session) : Except Fault (Option Mapping) :=
  match s.parsed with
  | some m => .ok m
  | none => .error (.missingKey parsedKey)

/-- All entries, the mapping as a document. -/
def toFields (s : Session) : Fields :=
  match s.parsed with
  | none => s.entries
  | some none => s.entries.insert parsedKey .null
  | some (some m) => s.entries.insert parsedKey m.toValue

end Session

end MappingFlow.Web
