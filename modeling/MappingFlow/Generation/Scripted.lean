/-
  MappingFlow.Generation.Scripted — a data flow whose steps are a script.

  Sources come first, among them the files that lookups read; then the steps, each after
  those it reads from; then the sinks, which all read the last step. The document lists
  every part by name and holds the script line by line.
-/

import MappingFlow.Dataflow.Datasets
import MappingFlow.Dataflow.Order
import MappingFlow.Dataflow.Script
import MappingFlow.Generation.Sources

namespace MappingFlow.Generation

open Dataflow

namespace Scripted

/-- A named part of the document. -/
def entry (name dataset : Value) : Value :=
  .object [("name", name), ("dataset", datasetReference dataset)]

structure Part where
  entry : Value
  block : Block

def sourcePart (datasets : DatasetNames) (s name : Value) : Generating Part := do
  let dataset ← datasets.name name true
  let block ← Script.sourceBlock s
  return ⟨entry name dataset, block⟩

/-- The source for a lookup that reads a file, unless there is one of that name. -/
def lookupSource (datasets : DatasetNames) (known : List Value) (step : Value) :
    Generating (Option (Value × Part)) := do
  let type ← step.fieldD "type" .null
  if type.isOneOf ["Lookup", "lookup"] then
    let table ← step.fieldD "lookupDataset" .null
    let kind ← step.fieldD "sourceType" (.text "Database")
    if kind.isText "Flat File" && table.isPresent then
      if ← table.inSet known then return none
      else
        let dataset ← datasets.name table true
        return some (table, ⟨entry table dataset, .source [] table.display⟩)
    else return none
  else return none

def lookupSources (datasets : DatasetNames) (known : List Value) :
    List Value → Generating (List (Value × Part))
  | [] => return []
  | step :: rest => do
    match ← lookupSource datasets known step with
    | some p =>
      let ps ← lookupSources datasets (known ++ [p.1]) rest
      return p :: ps
    | none => lookupSources datasets known rest

def stepTypes : List (String × String) :=
  [("DerivedColumn", "derivedColumn"), ("Filter", "filter"), ("Aggregate", "aggregate"), ("Join", "join"),
   ("Sort", "sort"), ("ConditionalSplit", "conditionalSplit"), ("Lookup", "lookup"), ("AlterRow", "alterRow"),
   ("Select", "select"), ("Union", "union"), ("Exists", "exists"), ("Pivot", "pivot"), ("Unpivot", "unpivot")]

/-- How the document calls a type of step. -/
def stepType (v : Value) : Except Fault String := do
  let s ← v.textFor "lower"
  return (stepTypes.lookup s).getD (String.ofList (Text.lower s.toList))

/-- The parts of the steps and the name of the last one. Steps that stand for a source
    are left out. -/
def stepParts (sources : List Value) (previous : Value) (earlier : List Value) :
    List Value → Generating (List Part × Value)
  | [] => return ([], previous)
  | step :: rest => do
    let name ← step.field "name"
    let type ← step.field "type"
    if ← name.inSet sources then stepParts sources previous earlier rest
    else if type.isOneOf sourceTypes then stepParts sources previous earlier rest
    else
      let word ← stepType type
      let block ← Script.stepBlock step previous earlier
      let (parts, last) ← stepParts sources name (earlier ++ [step]) rest
      return (⟨.object [("name", name), ("type", .text word)], block⟩ :: parts, last)

def sinkParts (datasets : DatasetNames) (previous : Value) : List Value → Generating (List Part)
  | [] => return []
  | s :: rest => do
    let name ← s.field "name"
    let dataset ← datasets.name name false
    let block ← Script.sinkBlock s previous
    let parts ← sinkParts datasets previous rest
    return ⟨entry name dataset, block⟩ :: parts

def cycleNote : String :=
  "WARNING: Circular dependency detected in transformations, keeping original order"

def orderedSteps (steps : List Value) : Generating (List Value) := do
  let (ordered, isOrder) ← Order.sortSteps steps
  if !isOrder then printLine cycleNote
  return ordered

def firstName (parts : List (Value × Part)) : Value := (parts.head?.map (·.1)).getD .null

/-- All parts of the script, in the order they are written. -/
structure Flow where
  sources : List Part
  steps : List Part
  sinks : List Part

def Flow.blocks (f : Flow) : List Block := (f.sources ++ f.steps ++ f.sinks).map (·.block)

def flow (datasets : DatasetNames) (plan : Value) : Generating Flow := do
  let connected ← connectedSources plan false
  let sources ← part plan "sources"
  let sources ← sources.items
  let declared ← eachSource connected (sourcePart datasets) [] sources
  let steps ← part plan "transformations"
  let steps ← steps.items
  let files ← lookupSources datasets (declared.map (·.1)) steps
  let sourceParts := declared ++ files
  let ordered ← orderedSteps steps
  let (parts, last) ← stepParts (sourceParts.map (·.1)) (firstName sourceParts) [] ordered
  let sinks ← part plan "sinks"
  let sinks ← sinks.items
  let sinks ← sinkParts datasets (last.orElse (firstName sourceParts)) sinks
  return ⟨sourceParts.map (·.2), parts, sinks⟩

def document (name : String) (description : Value) (f : Flow) : Value :=
  .object
    [("name", .text ("dataflow_" ++ name)),
     ("properties", .object
       [("description", description), ("type", .text "MappingDataFlow"),
        ("typeProperties", .object
          [("sources", .list (f.sources.map (·.entry))), ("transformations", .list (f.steps.map (·.entry))),
           ("sinks", .list (f.sinks.map (·.entry))),
           ("scriptLines", .texts (f.blocks.flatMap Block.lines))])]),
     ("type", .text "Microsoft.DataFactory/factories/dataflows")]

end Scripted

def scriptedDataflow (folder : Path) (moment : Moment) (datasets : DatasetNames) (name : String)
    (plan : Value) : Generating String := do
  let f ← Scripted.flow datasets plan
  let description ← plan.fieldD "description" (.text "")
  save folder ("dataflow_" ++ name ++ "_" ++ moment.stamp ++ ".json")
    (Scripted.document name description f)

end MappingFlow.Generation
