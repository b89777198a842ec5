/-
  MappingFlow.Mapping.Review — what speaks against converting a mapping.

  Errors stop a conversion, warnings and recommendations do not. The findings are those
  of the last review; a review that fails keeps what it found before.
-/

import MappingFlow.Document.Access
import MappingFlow.Mapping.Graph

namespace MappingFlow.Review

structure Findings where
  errors : List String
  warnings : List String
  recommendations : List String
  deriving DecidableEq

def Findings.none : Findings := ⟨[], [], []⟩

def Findings.toValue (f : Findings) : Value :=
  .object
    [("total_errors", .int f.errors.length), ("total_warnings", .int f.warnings.length),
     ("total_recommendations", .int f.recommendations.length), ("errors", .texts f.errors),
     ("warnings", .texts f.warnings), ("recommendations", .texts f.recommendations),
     ("is_valid", .bool f.errors.isEmpty)]

abbrev Reviewing := ExceptT Fault (StateM Findings)

def reject (e : String) : Reviewing Unit := modify fun f => { f with errors := f.errors ++ [e] }

def warn (w : String) : Reviewing Unit := modify fun f => { f with warnings := f.warnings ++ [w] }

def recommend (r : String) : Reviewing Unit :=
  modify fun f => { f with recommendations := f.recommendations ++ [r] }

def rejectIf (b : Bool) (e : String) : Reviewing Unit := if b then reject e else return ()

def warnIf (b : Bool) (w : String) : Reviewing Unit := if b then warn w else return ()

def recommendIf (b : Bool) (r : String) : Reviewing Unit := if b then recommend r else return ()

def supportedTypes : List String :=
  ["Source Qualifier", "Expression", "Filter", "Aggregator", "Joiner", "Sorter", "Router", "Lookup",
   "Lookup Procedure", "Update Strategy"]

def unsupportedTypes : List String :=
  ["Sequence Generator", "Normalizer", "Rank", "Union", "XML Source Qualifier", "XML Target",
   "Custom Transformation", "Stored Procedure", "External Procedure", "HTTP Transformation",
   "Java Transformation"]

/-! ## Parts of a mapping -/

def structureOf (m : Mapping) : Reviewing Unit := do
  rejectIf m.sources.isEmpty "Mapping no tiene sources definidos"
  rejectIf m.targets.isEmpty "Mapping no tiene targets definidos"
  warnIf m.transformations.isEmpty "Mapping no tiene transformaciones"

/-- Whether a property is there and not empty. -/
def has (t : Transformation) (key : String) : Bool := (t.properties.getD key .null).isPresent

def sortedInput (t : Transformation) : Reviewing Unit :=
  recommendIf (has t "sorted_input")
    (t.type ++ " '" ++ t.name ++ "' usa Sorted Input. Verificar que exista Sorter upstream.")

def joiner (t : Transformation) : Reviewing Unit := do
  rejectIf (!has t "join_condition") ("Joiner '" ++ t.name ++ "' no tiene join condition definida")
  warnIf (!has t "master_fields") ("Joiner '" ++ t.name ++ "' no tiene master fields identificados")
  warnIf (!has t "detail_fields") ("Joiner '" ++ t.name ++ "' no tiene detail fields identificados")
  sortedInput t

def aggregator (t : Transformation) : Reviewing Unit := do
  rejectIf (!has t "group_by_fields" && !has t "aggregate_expressions")
    ("Aggregator '" ++ t.name ++ "' no tiene GROUP BY ni expresiones de agregación")
  sortedInput t

def readsFlatFile (t : Transformation) : Bool :=
  (t.properties.getD "source_type" (.text "Database")).isText "Flat File"

def lookup (t : Transformation) : Reviewing Unit := do
  if readsFlatFile t then
    if has t "flat_file" then
      warn ("Lookup '" ++ t.name ++ "' uses Flat File. Ensure DelimitedText dataset is configured.")
    else warn ("Lookup '" ++ t.name ++ "' usa Flat File pero no tiene configuración de archivo")
  else
    rejectIf (!has t "lookup_table" && !has t "sql_override")
      ("Lookup '" ++ t.name ++ "' no tiene lookup table ni SQL Override definido")
  warnIf (!has t "lookup_condition") ("Lookup '" ++ t.name ++ "' no tiene lookup condition definida")
  warnIf (has t "sql_override")
    ("Lookup '" ++ t.name ++ "' usa SQL Override. Revisar compatibilidad con ADF.")

/-- An output group without an expression gets no rows. -/
def routerGroup (t : Transformation) (g : Value) : Reviewing Unit := do
  let type ← g.field "type"
  if type.isText "output" then
    let e ← g.fieldD "expression" .null
    if !e.isPresent then
      let name ← g.field "name"
      warn ("Router '" ++ t.name ++ "' - Group '" ++ name.display ++ "' no tiene expresión definida")

def routerGroups (t : Transformation) : List Value → Reviewing Unit
  | [] => return ()
  | g :: rest => do
    routerGroup t g
    routerGroups t rest

def router (t : Transformation) : Reviewing Unit := do
  let groups := t.properties.getD "groups" (.list [])
  rejectIf (!groups.isPresent) ("Router '" ++ t.name ++ "' no tiene output groups definidos")
  warnIf (!has t "default_group")
    ("Router '" ++ t.name ++ "' no tiene default group. Registros no coincidentes pueden perderse.")
  let members ← groups.items
  routerGroups t members
  recommendIf (members.length > 10)
    ("Router '" ++ t.name ++ "' tiene " ++ toString members.length ++ " grupos. Considerar simplificar.")

def updateStrategy (t : Transformation) : Reviewing Unit :=
  warnIf ((t.properties.getD "strategy" (.text "DD_INSERT")).isText "DD_REJECT")
    ("Update Strategy '" ++ t.name
      ++ "' usa DD_REJECT. Considerar usar Router para manejo de errores en ADF.")

def transformation (t : Transformation) : Reviewing Unit :=
  if unsupportedTypes.contains t.type then
    reject ("Transformación '" ++ t.name ++ "' de tipo '" ++ t.type ++ "' no está soportada")
  else do
    warnIf (!supportedTypes.contains t.type)
      ("Transformación '" ++ t.name ++ "' de tipo '" ++ t.type
        ++ "' puede no estar completamente soportada")
    match t.type with
    | "Joiner" => joiner t
    | "Aggregator" => aggregator t
    | "Lookup" => lookup t
    | "Lookup Procedure" => lookup t
    | "Router" => router t
    | "Update Strategy" => updateStrategy t
    | _ => return ()

def transformations : List Transformation → Reviewing Unit
  | [] => return ()
  | t :: rest => do
    transformation t
    transformations rest

/-! ## Flow -/

/-- In the order of their characters, without repetitions. -/
def insertName (name : String) : List String → List String
  | [] => [name]
  | n :: rest => if name < n then name :: n :: rest else if name = n then n :: rest else n :: insertName name rest

def sortNames (names : List String) : List String := names.foldr insertName []

def disconnected (m : Mapping) : List String :=
  let connected := Graph.touched (Graph.ofConnectors m.connectors) ++ m.sources.map (·.name)
    ++ m.targets.map (·.name)
  sortNames ((m.transformations.map (·.name)).filter (!connected.contains ·))

def warnAll : List String → Reviewing Unit
  | [] => return ()
  | w :: rest => do
    warn w
    warnAll rest

def flow (m : Mapping) : Reviewing Unit := do
  rejectIf (Graph.hasCycle (Graph.ofConnectors m.connectors))
    "Mapping tiene dependencias circulares en el flujo"
  warnAll ((disconnected m).map fun n =>
    "Transformación '" ++ n ++ "' parece estar desconectada del flujo principal")

/-! ## Patterns -/

/-- Of several transformations of one name the last counts. -/
def named? (m : Mapping) (name : String) : Option Transformation :=
  (m.transformations.filter (·.name == name)).getLast?

def isOfType (m : Mapping) (types : List String) (name : String) : Bool :=
  (named? m name).any fun t => types.contains t.type

def hasSorterUpstream (m : Mapping) (name : String) : Bool :=
  m.connectors.any fun c => c.target == name && isOfType m ["Sorter"] c.source

def unsortedInputs (m : Mapping) : List Transformation :=
  m.transformations.filter fun t =>
    ["Aggregator", "Joiner"].contains t.type && has t "sorted_input" && !hasSorterUpstream m t.name

def lookupTypes : List String := ["Lookup", "Lookup Procedure"]

/-- Connections from one lookup to another. -/
def chainedLookups (m : Mapping) : Nat :=
  (m.connectors.filter fun c => isOfType m lookupTypes c.source && isOfType m lookupTypes c.target).length

def patterns (m : Mapping) : Reviewing Unit := do
  warnAll ((unsortedInputs m).map fun t =>
    t.type ++ " '" ++ t.name ++ "' tiene Sorted Input habilitado pero no se detectó Sorter upstream")
  recommendIf (chainedLookups m > 2)
    ("Detectados " ++ toString (chainedLookups m)
      ++ " lookups encadenados. Considerar combinar queries para mejor performance.")

/-- A review begins without findings. -/
def mapping (m : Mapping) : Reviewing Unit := do
  set Findings.none
  structureOf m
  transformations m.transformations
  flow m
  patterns m

end MappingFlow.Review
