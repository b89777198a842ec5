/-
  MappingFlow.Generation.Documents — the pipeline that runs a data flow, and the report
  on a conversion.

  A report counts what was converted and lists warnings and errors. Those are the
  generator's own for a scripted data flow, and those of the structure for a linked one.
-/

import MappingFlow.Generation.Sources
import MappingFlow.Generation.Statistics

namespace MappingFlow.Generation

/-! ## Pipeline -/

def activity (name : String) : Value :=
  .object
    [("name", .text "ExecuteDataFlow"), ("type", .text "ExecuteDataFlow"), ("dependsOn", .list []),
     ("policy", .object
       [("timeout", .text "1.00:00:00"), ("retry", .int 0), ("retryIntervalInSeconds", .int 30),
        ("secureOutput", .bool false), ("secureInput", .bool false)]),
     ("typeProperties", .object
       [("dataFlow", .object
         [("referenceName", .text ("dataflow_" ++ name)), ("type", .text "DataFlowReference")]),
        ("compute", .object [("coreCount", .int 8), ("computeType", .text "General")])])]

def pipelineDocument (moment : Moment) (name : String) (description : Value) : Value :=
  .object
    [("name", .text ("pipeline_" ++ name)),
     ("properties", .object
       [("description", description), ("activities", .list [activity name]),
        ("annotations", .list [.text ("Migrado desde PowerCenter - " ++ moment.date)])])]

def pipeline (folder : Path) (moment : Moment) (name : String) (plan : Value) :
    Generating String := do
  let description ← plan.fieldD "description" (.text "")
  save folder ("pipeline_" ++ name ++ "_" ++ moment.stamp ++ ".json")
    (pipelineDocument moment name description)

/-! ## Report -/

def convertedStep (t : Value) : Except Fault Value := do
  let name ← t.field "name"
  let type ← t.field "type"
  return .object [("name", name), ("type", type), ("status", .text "migrated")]

/-- The number of members of a part of the structure. -/
def count (plan : Value) (key : String) : Except Fault Nat := do
  let v ← part plan key
  v.size

/-- What a style of data flow puts into a report. -/
structure ReportParts where
  warnings : Value
  errors : Value
  /-- Whether there is something to look at. -/
  hasWarnings : Bool
  /-- The last recommendation. -/
  closing : String

def adviceFor (plan : Value) (p : ReportParts) : Except Fault (List String) := do
  let sources ← plan.fieldD "sources" .null
  let sinks ← if sources.isPresent then pure sources else plan.fieldD "sinks" .null
  return (if p.hasWarnings then
        ["Revisar warnings para identificar componentes que requieren ajuste manual"] else [])
    ++ (if sources.isPresent || sinks.isPresent then
        ["Configurar Linked Services en Azure Data Factory para fuentes y destinos"] else [])
    ++ ["Ejecutar pruebas de validación de datos después de importar a ADF", p.closing]

/-- `total` is the number of transformations of the mapping, zero if it is not known. -/
def reportDocument (moment : Moment) (name : String) (plan : Value) (total : Nat)
    (counts : Nat × Nat) (p : ReportParts) : Except Fault Value := do
  let converted ← count plan "transformations"
  let statistics ← Statistics.compute total converted counts.1 counts.2
  let sources ← count plan "sources"
  let sinks ← count plan "sinks"
  let steps ← part plan "transformations"
  let steps ← steps.items
  let details ← steps.mapM convertedStep
  let advice ← adviceFor plan p
  return .object
    [("mapping_name", .text name), ("migration_date", .text moment.iso),
     ("statistics", statistics.toValue moment),
     ("components", .object
       [("sources", .int sources), ("transformations", .int converted), ("sinks", .int sinks)]),
     ("warnings", p.warnings), ("errors", p.errors),
     ("details", .object [("transformations_migrated", .list details)]),
     ("recommendations", .texts advice)]

def scriptedClosing : String := "Revisar scriptLines generados para verificar la lógica de transformación"

def linkedClosing : String :=
  "Revisar configuración de compute (cores, tipo) en el pipeline para optimizar performance"

def scriptedParts (s : State) : ReportParts :=
  ⟨.texts s.warnings, .texts s.errors, !s.warnings.isEmpty, scriptedClosing⟩

def linkedParts (plan : Value) : Except Fault ReportParts := do
  let warnings ← plan.fieldD "warnings" (.list [])
  let errors ← plan.fieldD "errors" (.list [])
  return ⟨warnings, errors, warnings.isPresent, linkedClosing⟩

def saveReport (folder : Path) (moment : Moment) (name : String) (v : Value) : Generating String :=
  save folder ("migration_report_" ++ name ++ "_" ++ moment.stamp ++ ".json") v

def scriptedReport (folder : Path) (moment : Moment) (name : String) (plan : Value) (total : Nat) :
    Generating String := do
  let s ← get
  let v ← reportDocument moment name plan total (s.warnings.length, s.errors.length) (scriptedParts s)
  saveReport folder moment name v

def linkedReport (folder : Path) (moment : Moment) (name : String) (plan : Value) (total : Nat) :
    Generating String := do
  let _ ← count plan "transformations"
  let warnings ← count plan "warnings"
  let errors ← count plan "errors"
  let p ← linkedParts plan
  let v ← reportDocument moment name plan total (warnings, errors) p
  saveReport folder moment name v

def scriptedAdvice (plan : Value) : Generating (List String) := do
  let s ← get
  adviceFor plan (scriptedParts s)

def linkedAdvice (plan : Value) : Except Fault (List String) := do
  let warnings ← plan.fieldD "warnings" .null
  adviceFor plan ⟨warnings, .null, warnings.isPresent, linkedClosing⟩

end MappingFlow.Generation
