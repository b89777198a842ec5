/-
  MappingFlow.Generation.Linked — a data flow whose steps name the steps they depend on.

  Every step depends on the step before it in the structure, the first one on the first
  source; a join depends on the last two names, in the order of their characters, among
  the sources and the steps before it. Expressions are converted once more. The document
  is checked before it is written.
-/

import MappingFlow.Dataflow.Datasets
import MappingFlow.Dataflow.Structure
import MappingFlow.Generation.Sources

namespace MappingFlow.Generation

open Dataflow

namespace Linked

def dependency (step : Value) : Value :=
  .object [("activity", step), ("dependencyConditions", .texts ["Succeeded"])]

def stepDocument (name type : Value) (dependsOn : List Value) (settings : Fields) : Value :=
  .object [("name", name), ("type", type), ("dependsOn", .list (dependsOn.map dependency)),
    ("typeProperties", .object settings)]

def expressionValue (v : Value) : Value := .object [("value", v), ("type", .text "Expression")]

/-- What is absent stays as it is; anything else has to be a text. -/
def convert (v : Value) : Except Fault Value :=
  if !v.isPresent then .ok v
  else
    match v with
    | .text s => match Expression.convert s.toList with
      | .ok t => .ok (.text (String.ofList t))
      | .error r => .error (.residue r)
    | v => .error (.noOperation v.kind "strip")

/-- Converts an expression and notes what is wrong with the result; the name is only
    needed for the note. -/
def reviewed (label : String) (owner v : Value) : Generating Value := do
  let w ← convert v
  let s ← w.textFor "upper"
  let found := Expression.complaints s.toList
  if !found.isEmpty then
    let name ← owner.field "name"
    warn (label ++ " '" ++ name.display ++ "': " ++ (Value.texts (found.map (·.message))).display)
  return w

/-- A named expression. -/
def namedExpression (label : String) (c : Value) : Generating Value := do
  let e ← c.fieldD "expression" (.text "")
  let v ← reviewed label c e
  let name ← c.field "name"
  return .object [("name", name), ("value", expressionValue v)]

def namedExpressions (label : String) : List Value → Generating (List Value)
  | [] => return []
  | c :: rest => do
    let v ← namedExpression label c
    let vs ← namedExpressions label rest
    return v :: vs

/-! ## Steps -/

def deriveStep (t previous : Value) : Generating Value := do
  let columns ← part t "columns"
  let columns ← columns.items
  let columns ← namedExpressions "Expresión inválida en columna" columns
  let name ← t.field "name"
  return stepDocument name (.text "derivedColumn") [previous] [("columns", .list columns)]

def filterStep (t previous : Value) : Generating Value := do
  let condition ← t.fieldD "condition" (.text "true")
  let v ← reviewed "Condición inválida en filtro" t condition
  let name ← t.field "name"
  return stepDocument name (.text "filter") [previous] [("condition", expressionValue v)]

def aggregateStep (t previous : Value) : Generating Value := do
  let aggregates ← part t "aggregates"
  let aggregates ← aggregates.items
  let aggregates ← namedExpressions "Expresión de agregación inválida" aggregates
  let name ← t.field "name"
  let groupBy ← part t "groupBy"
  return stepDocument name (.text "aggregate") [previous]
    [("groupBy", groupBy), ("aggregates", .list aggregates)]

def pairOf (c : Value) : Except Fault Value := do
  let left ← c.fieldD "leftColumn" (.text "")
  let right ← c.fieldD "rightColumn" (.text "")
  return .object [("leftColumn", left), ("operator", .text "=="), ("rightColumn", right)]

def pairsOf (t : Value) (key : String) : Except Fault (List Value) := do
  let conditions ← part t key
  let items ← conditions.items
  items.mapM pairOf

/-- The last two of the steps so far. -/
def lastTwo? (steps : List Value) : Option (Value × Value) :=
  match steps.reverse with
  | right :: left :: _ => some (left, right)
  | _ => none

def joinStep (t : Value) (steps : List Value) : Except Fault Value :=
  match lastTwo? steps with
  | none => do
    let name ← t.field "name"
    .error (.joinWithoutInputs name)
  | some (left, right) => do
    let conditions ← pairsOf t "joinConditions"
    let name ← t.field "name"
    let kind ← t.fieldD "joinType" (.text "inner")
    return stepDocument name (.text "join") [left, right]
      [("joinType", kind), ("leftInput", left), ("rightInput", right), ("joinConditions", .list conditions)]

def sortStep (t previous : Value) : Except Fault Value := do
  let name ← t.field "name"
  let columns ← part t "orderBy"
  let distinct ← t.fieldD "distinct" (.bool false)
  return stepDocument name (.text "sort") [previous] [("sortColumns", columns), ("distinct", distinct)]

def splitStep (t previous : Value) : Generating Value := do
  let conditions ← part t "conditions"
  let conditions ← conditions.items
  let conditions ← namedExpressions "Condición inválida en" conditions
  let name ← t.field "name"
  let default ← t.fieldD "defaultStream" (.text "default")
  return stepDocument name (.text "conditionalSplit") [previous]
    [("conditions", .list conditions), ("defaultOutput", default)]

def lookupStep (t previous : Value) : Except Fault Value := do
  let conditions ← pairsOf t "lookupConditions"
  let table ← t.fieldD "lookupDataset" (.text "ds_lookup")
  let name ← t.field "name"
  return stepDocument name (.text "lookup") [previous]
    [("lookupDataset", datasetReference table), ("lookupConditions", .list conditions),
     ("multiple", .bool false)]

def changeSettings (t : Value) : Except Fault Fields := do
  let action ← t.fieldD "action" (.text "insert")
  match action with
  | .text a =>
    if ["insert", "update", "delete", "upsert"].contains a then
      let condition ← t.fieldD "condition" (.text "true")
      return [(a ++ "Condition", expressionValue condition)]
    else return []
  | _ => return []

def changeStep (t previous : Value) : Except Fault Value := do
  let settings ← changeSettings t
  let name ← t.field "name"
  return stepDocument name (.text "alterRow") [previous] settings

def otherStep (t previous : Value) : Except Fault Value := do
  let name ← t.field "name"
  let type ← t.field "type"
  let s ← type.textFor "lower"
  return stepDocument name (.text (String.ofList (Text.lower s.toList))) [previous] []

def step (t type previous : Value) (steps : List Value) : Generating Value :=
  match type with
  | .text "DerivedColumn" => deriveStep t previous
  | .text "Filter" => filterStep t previous
  | .text "Aggregate" => aggregateStep t previous
  | .text "Join" => joinStep t steps
  | .text "Sort" => sortStep t previous
  | .text "ConditionalSplit" => splitStep t previous
  | .text "Lookup" => lookupStep t previous
  | .text "AlterRow" => changeStep t previous
  | _ => otherStep t previous

/-! ## The flow -/

/-- Adds a name to a list in the order of its characters, if it is not there. -/
def insertStep (name : Value) : List Value → List Value
  | [] => [name]
  | n :: rest =>
    if n.same name then n :: rest
    else if name.display < n.display then name :: n :: rest
    else n :: insertStep name rest

def clashNote (name type : Value) : String :=
  "CRÍTICO: '" ++ name.display ++ "' aparece como source Y como transformation. "
    ++ "Esto causa error en ADF. Tipo: " ++ type.display

/-- A step that cannot be built is noted and stops the generation. -/
def guarded (name : Value) (build : Generating Value) : Generating Value :=
  tryCatch build fun f => do
    let fault := Fault.brokenStep name f.message
    reportError fault.message
    throw fault

/-- `before` is the name of the step before this one in the structure; none for the
    first, which follows the first source. -/
def stepsFrom (sources : List Value) (before : Option Value) (known : List Value) :
    List Value → Generating (List (Value × Value))
  | [] => return []
  | t :: rest => do
    let name ← t.field "name"
    let type ← t.field "type"
    if ← name.inSet sources then
      reportError (clashNote name type)
      stepsFrom sources (some name) known rest
    else if type.isOneOf sourceTypes then stepsFrom sources (some name) known rest
    else
      let previous ← match before with
        | some p => pure p
        | none => match sources with
          | s :: _ => pure s
          | [] => throw .outOfRange
      let v ← guarded name (step t type previous known)
      let vs ← stepsFrom sources (some name) (insertStep name known) rest
      return (name, v) :: vs

def sourceEntry (_ name : Value) : Generating Value :=
  return .object [("name", name), ("dataset", datasetReference (.text (plainDataset name true)))]

def sinkEntries (last? : Option Value) : List Value → Generating (List Value)
  | [] => return []
  | s :: rest => do
    match last? with
    | none => throw .nothingToSink
    | some last =>
      let name ← s.field "name"
      let entry : Value := .object
        [("name", name), ("dataset", datasetReference (.text (plainDataset name false))),
         ("dependsOn", .list [dependency last])]
      let es ← sinkEntries last? rest
      return entry :: es

def document (name : String) (description : Value) (sources steps sinks : List Value) : Value :=
  .object
    [("name", .text ("dataflow_" ++ name)),
     ("properties", .object
       [("description", description), ("type", .text Check.mappingType),
        ("typeProperties", .object
          [("sources", .list sources), ("transformations", .list steps), ("sinks", .list sinks),
           ("scriptLines", .list [])])]),
     ("type", .text Check.dataflowType)]

end Linked

open Linked in
def linkedDataflow (folder : Path) (moment : Moment) (name : String) (plan : Value) :
    Generating String := do
  let connected ← connectedSources plan true
  let sources ← part plan "sources"
  let sources ← sources.items
  let declared ← eachSource connected sourceEntry [] sources
  let names := declared.map (·.1)
  let ts ← part plan "transformations"
  let ts ← ts.items
  let steps ← stepsFrom names none (names.foldl (fun known n => insertStep n known) []) ts
  let last? := (steps.getLast?.map (·.1)).orElse fun _ => names.head?
  let sinks ← part plan "sinks"
  let sinks ← sinks.items
  let sinks ← sinkEntries last? sinks
  let description ← plan.fieldD "description" (.text "")
  let d := document name description (declared.map (·.2)) (steps.map (·.2)) sinks
  Structure.check d
  save folder ("dataflow_" ++ name ++ "_" ++ moment.stamp ++ ".json") d

end MappingFlow.Generation
