/-
  MappingFlow.Command.Summary — what is printed at the end of a conversion.
-/

import MappingFlow.Command.Console
import MappingFlow.Document.Access

namespace MappingFlow.Command

/-- The kind of a file, filled up with blanks to twelve characters. -/
def fileKind (kind : String) : String :=
  let k := Text.capitalize kind.toList
  String.ofList (k ++ List.replicate (12 - k.length) ' ')

def saySection (title : String) (lines : Running Unit) : Running Unit := do
  sayAll ["\n" ++ title, thinRule]
  lines
  say thinRule

/-- A statistic that is missing stops the summary. -/
def sayStatistic (label : String) (statistics : Value) (key ending : String) : Running Unit := do
  let v ← statistics.field key
  say (label ++ v.display ++ ending)

def summary (name : String) (statistics : Value) (files : List (String × String))
    (warnings errors : List String) : Running Unit := do
  sayAll ["\n" ++ thickRule, "MIGRACION COMPLETADA: " ++ name, thickRule]
  saySection "Estadisticas de Migracion:" do
    sayStatistic "  Total Transformaciones:     " statistics "total_transformations" ""
    sayStatistic "  Migradas Exitosamente:      " statistics "migrated_transformations" ""
    sayStatistic "  Tasa de Exito:              " statistics "success_rate" "%"
    sayStatistic "  Warnings:                   " statistics "warnings" ""
    sayStatistic "  Errores:                    " statistics "errors" ""
  if !files.isEmpty then
    saySection "Archivos Generados:" do
      sayAll (files.map fun f => "  " ++ fileKind f.1 ++ ": " ++ (Path.read f.2).name)
  if !warnings.isEmpty then saySection "WARNINGS:" (sayFirst 5 " mas (ver reporte completo)" warnings)
  if !errors.isEmpty then saySection "ERRORES:" (sayFirst 5 " mas (ver reporte completo)" errors)

end MappingFlow.Command
