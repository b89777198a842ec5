/-
  MappingFlow.Conversion.Basic — a mapping as the structure of a data flow.

  Sources and targets become datasets with a schema; each transformation becomes a step
  of the type the rules give it, and one that the rules do not know is left out with a
  warning. The structure carries all warnings and errors noted so far.
-/

import MappingFlow.Conversion.Lookup

namespace MappingFlow.Conversion

def schemaColumn (r : Rules) (c : Column) : Except Fault Value := do
  let type ← r.datatype c.datatype
  return .object [("name", .text c.name), ("type", type)]

def convertEndpoint (r : Rules) (kind : String) (e : Endpoint) : Converting Value := do
  let schema ← (e.columns.mapM (schemaColumn r) : Except Fault (List Value))
  return .object
    [("name", .text e.name), ("type", .text kind),
     ("dataset", .object [("type", .text (Rules.databaseType e.databaseType)),
       ("table", .ofOption e.tableName)]),
     ("schema", .list schema)]

def convertSource (r : Rules) (e : Endpoint) : Converting Value := convertEndpoint r "Source" e

def convertTarget (r : Rules) (e : Endpoint) : Converting Value := convertEndpoint r "Sink" e

def convertStep (r : Rules) (t : Transformation) (type : Value) : Converting Value :=
  match t.type with
  | "Expression" => deriveStep r t type
  | "Filter" => filterStep r t type
  | "Aggregator" => aggregateStep r t type
  | "Joiner" => joinStep t type
  | "Sorter" => sortStep t type
  | "Router" => splitStep r t type
  | "Lookup" => lookupStep t type
  | "Lookup Procedure" => lookupStep t type
  | "Update Strategy" => changeStep r t type
  | _ => return .object (stepHead t type)

/-- None for a transformation that the rules do not know. -/
def convertTransformation (r : Rules) (t : Transformation) : Converting (Option Value) := do
  let type ← r.stepType t.type
  if type.isPresent then
    let step ← convertStep r t type
    return some step
  else
    warn ("Transformación '" ++ t.type ++ "' no soportada: " ++ t.name)
    return none

def convertTransformations (r : Rules) : List Transformation → Converting (List Value)
  | [] => return []
  | t :: rest => do
    let v ← convertTransformation r t
    let vs ← convertTransformations r rest
    return v.toList ++ vs

def convertEndpoints (convert : Endpoint → Converting Value) : List Endpoint → Converting (List Value)
  | [] => return []
  | e :: rest => do
    let v ← convert e
    let vs ← convertEndpoints convert rest
    return v :: vs

/-- A description is never empty. -/
def describe (m : Mapping) : String :=
  match m.description with
  | some d => if d = "" then "Migrado desde PowerCenter: " ++ m.name else d
  | none => "Migrado desde PowerCenter: " ++ m.name

def convertMapping (r : Rules) (m : Mapping) : Converting Value := do
  modify fun s => { s with mapping := some m }
  setFeeds m.connectors
  setCasing m.sources
  let sources ← convertEndpoints (convertSource r) m.sources
  let steps ← convertTransformations r m.transformations
  let sinks ← convertEndpoints (convertTarget r) m.targets
  let s ← get
  return .object
    [("name", .text m.name), ("description", .text (describe m)), ("sources", .list sources),
     ("transformations", .list steps), ("sinks", .list sinks), ("warnings", .texts s.warnings),
     ("errors", .texts s.errors)]

end MappingFlow.Conversion
