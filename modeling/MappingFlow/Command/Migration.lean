/-
  MappingFlow.Command.Migration — the conversion of one file, with its progress printed.

  A mapping whose review finds errors is not converted unless the review is skipped.
  `migrate` answers whether the conversion went through; a failure on the way is printed.
-/

import MappingFlow.Command.Summary
import MappingFlow.Conversion.Basic
import MappingFlow.Generation.Basic
import MappingFlow.Mapping.Extraction
import MappingFlow.Mapping.Review

namespace MappingFlow.Command

/-- What is asked for: the file, the folder to write to, and how far to go. -/
structure Request where
  input : String
  output : String
  validateOnly : Bool
  skipValidation : Bool

def readMapping (path : String) : Running Mapping := do
  say "Validando archivo de entrada..."
  let p ← (← get).storage.requireFile path ".xml"
  say ("[OK] Archivo válido: " ++ p.toText)
  say "Parseando XML de PowerCenter..."
  let bytes ← (← get).storage.read p.toText
  let m ← Mapping.ofBytes bytes
  sayAll
    ["[OK] Mapping parseado: " ++ m.name, "  - Fuentes: " ++ toString m.sources.length,
     "  - Transformaciones: " ++ toString m.transformations.length,
     "  - Destinos: " ++ toString m.targets.length]
  return m

/-- Whether the mapping has no errors. -/
def reviewMapping (m : Mapping) : Running Bool := do
  say "\nValidando mapping..."
  let (outcome, found) := (Review.mapping m).run .none
  let _ ← (outcome : Except Fault _)
  if !found.errors.isEmpty then
    say ("[ERROR] Validación falló con " ++ toString found.errors.length ++ " errores:")
    sayFirst 5 " más" found.errors
    return false
  if !found.warnings.isEmpty then
    say ("[WARNING] " ++ toString found.warnings.length ++ " advertencias encontradas:")
    sayFirst 3 " más" found.warnings
  say "[OK] Validación completada"
  return true

/-- The number of entries of a part of the plan. -/
def sizeOf (plan : Value) (key : String) : Except Fault Nat := do
  let part ← plan.field key
  part.size

def notes (plan : Value) (key : String) : Except Fault (List String) := do
  let part ← plan.field key
  let items ← part.items
  return items.map Value.display

def convertMapping (rules : Rules) (m : Mapping) : Running Value := do
  say "\nTraduciendo a Azure Data Factory..."
  let (outcome, _) := (Conversion.convertMapping rules m).run .start
  let plan ← (outcome : Except Fault Value)
  let steps ← sizeOf plan "transformations"
  let warnings ← sizeOf plan "warnings"
  let errors ← sizeOf plan "errors"
  sayAll
    ["[OK] Traduccion completada", "  - Transformaciones migradas: " ++ toString steps,
     "  - Warnings: " ++ toString warnings, "  - Errores: " ++ toString errors]
  return plan

/-- The files written before a failure stay. -/
def writeFiles (g : Generation.Generator) (m : Mapping) (plan : Value) : Running Generation.Generator.Files := do
  let start ← g.start (← get).storage
  let (outcome, done) := (g.all m.name plan m.transformations.length).run start
  modify fun c => { c with storage := done.storage, printed := c.printed ++ done.printed }
  (outcome : Except Fault _)

def nextSteps : List String :=
  ["\n" ++ thickRule, "PROXIMOS PASOS:", thickRule, "1. Revisar el reporte de migracion generado",
   "2. Configurar Linked Services en Azure Data Factory", "3. Importar el pipeline y dataflow a ADF",
   "4. Validar y ajustar transformaciones manualmente si es necesario",
   "5. Ejecutar pruebas de validacion de datos", thickRule]

def migration (rules : Rules) (datasets : Dataflow.DatasetNames) (moment : Generation.Moment)
    (r : Request) : Running Bool := do
  let m ← readMapping r.input
  let accepted ← if r.skipValidation then pure true else reviewMapping m
  if !accepted then return false
  if r.validateOnly then
    say "\n[OK] Validacion exitosa"
    return true
  let plan ← convertMapping rules m
  let storage ← (← get).storage.makeFolder r.output
  modify fun c => { c with storage := storage }
  say "\nGenerando archivos de ADF..."
  let files ← writeFiles ⟨.scripted datasets, .read r.output, moment⟩ m plan
  say ("[OK] Archivos generados en: " ++ r.output)
  let steps ← sizeOf plan "transformations"
  let warnings ← notes plan "warnings"
  let errors ← notes plan "errors"
  let statistics ← Generation.Statistics.compute m.transformations.length steps warnings.length errors.length
  summary m.name (statistics.toValue moment)
    [("pipeline", files.pipeline), ("dataflow", files.dataflow), ("report", files.report)] warnings errors
  sayAll nextSteps
  return true

/-- How a failure is announced. -/
def announce : Fault → String
  | .malformedMarkup => "\n[ERROR] Error de validacion: " ++ Fault.malformedMarkup.message
  | f => "\n[ERROR] Error inesperado: " ++ f.message

def migrate (rules : Rules) (datasets : Dataflow.DatasetNames) (moment : Generation.Moment)
    (r : Request) : StateM Console Bool := do
  match ← (migration rules datasets moment r).run with
  | .ok success => return success
  | .error f =>
    modify fun c => { c with printed := c.printed ++ [announce f] }
    return false

end MappingFlow.Command
