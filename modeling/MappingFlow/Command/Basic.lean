/-
  MappingFlow.Command.Basic — the whole command line program.

  It prints its banner, reads the words it was given, and converts the file they name.
  The number it ends with is 0 if all went well, 1 if the conversion did not go through
  and 2 if the words were not understood.
-/

import MappingFlow.Command.Migration
import MappingFlow.Command.Options

namespace MappingFlow.Command

def banner : List String :=
  ["", "===============================================================",
   "  PowerCenter to Azure Data Factory Migrator v2.0", "  Desarrollado por: Entix SpA", "",
   "  Nueva v2.0: Soporte completo para transformaciones avanzadas",
   "  - Joiner (Inner, Left, Right, Full Outer)", "  - Aggregator (SUM, AVG, COUNT, MIN, MAX)",
   "  - Lookup (Database, Flat File, SQL Override)",
   "  - Router (Conditional Split con múltiples salidas)", "  - Sorter (Ordenamiento múltiple)",
   "  - Update Strategy (INSERT, UPDATE, DELETE)",
   "===============================================================", "    "]

/-- The name under which the program keeps its log. -/
def logName : String := "pc-to-adf"

/-- How much is logged: from 10 on if everything is asked for, otherwise from 20 on. -/
def logLevel (verbose : Bool) : Nat := if verbose then 10 else 20

/-- A log file that is named is there before anything is logged. -/
def openLog (file : Option String) : Running Unit := do
  match file with
  | none => return ()
  | some path =>
    if !path.isEmpty then
      let storage ← (← get).storage.touch path
      modify fun c => { c with storage := storage }

def program (rules : Rules) (datasets : Dataflow.DatasetNames) (moment : Generation.Moment)
    (words : List String) : Running Nat := do
  sayAll banner
  match Options.read words with
  | .refused => return 2
  | .help => return 0
  | .version =>
    say (logName ++ " 2.0.0")
    return 0
  | .options o =>
    openLog o.logFile
    let success ← (migrate rules datasets moment ⟨o.input, o.output, o.validateOnly, o.skipValidation⟩ :
      StateM Console Bool)
    return if success then 0 else 1

end MappingFlow.Command
