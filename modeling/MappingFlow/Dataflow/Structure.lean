/-
  MappingFlow.Dataflow.Structure — the check a linked data flow passes before it is
  written.

  The first thing that is wrong stops the check. A step may depend on sources and on
  steps before it, a sink on all of them.
-/

import MappingFlow.Dataflow.Check

namespace MappingFlow.Dataflow.Structure

/-- The first key that is not there. -/
def require (v : Value) (fault : String → Fault) : List String → Except Fault Unit
  | [] => .ok ()
  | key :: rest => do
    if ← v.holdsKey key then require v fault rest else .error (fault key)

def dependencies (steps : List Value) (fault : Value → Except Fault Fault) : List Value → Except Fault Unit
  | [] => .ok ()
  | d :: rest => do
    let activity ← d.field "activity"
    if ← activity.inSet steps then dependencies steps fault rest
    else
      let f ← fault activity
      .error f

/-- `missing` and `dangling` are the causes for a step of the given name. -/
def dependsOn (steps : List Value) (v : Value) (missing : Value → Fault) (dangling : Value → Value → Fault) :
    Except Fault Unit := do
  if ← v.holdsKey "dependsOn" then
    let ds ← v.field "dependsOn"
    let ds ← ds.items
    dependencies steps (fun activity => do
      let name ← v.field "name"
      return dangling name activity) ds
  else
    let name ← v.field "name"
    .error (missing name)

/-- The names that may be depended on after the steps. -/
def transformations (steps : List Value) : List Value → Except Fault (List Value)
  | [] => .ok steps
  | t :: rest => do
    dependsOn steps t .noDependencies .danglingDependency
    let name ← t.field "name"
    name.requireHashable
    transformations (steps ++ [name]) rest

def sinks (steps : List Value) : List Value → Except Fault Unit
  | [] => .ok ()
  | s :: rest => do
    dependsOn steps s .sinkNoDependencies .sinkDanglingDependency
    sinks steps rest

def sourceNames : List Value → Except Fault (List Value)
  | [] => .ok []
  | s :: rest => do
    let name ← s.field "name"
    name.requireHashable
    let names ← sourceNames rest
    return name :: names

def check (d : Value) : Except Fault Unit := do
  require d (.missingMember "dataflow") ["name", "properties", "type"]
  let type ← d.field "type"
  if !type.isText Check.dataflowType then .error (.wrongDataflowType type)
  let properties ← d.field "properties"
  require properties (.missingMember "properties") ["type", "typeProperties"]
  let kind ← properties.field "type"
  if !kind.isText Check.mappingType then .error (.wrongPropertiesType kind)
  let settings ← properties.field "typeProperties"
  require settings (.missingMember "typeProperties") ["sources", "transformations", "sinks", "scriptLines"]
  let sources ← settings.field "sources"
  let sources ← sources.items
  let steps ← sourceNames sources
  let ts ← settings.field "transformations"
  let ts ← ts.items
  let steps ← transformations steps ts
  let ss ← settings.field "sinks"
  let ss ← ss.items
  sinks steps ss

end MappingFlow.Dataflow.Structure
