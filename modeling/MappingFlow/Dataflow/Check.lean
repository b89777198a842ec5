/-
  MappingFlow.Dataflow.Check — whether a document is a data flow that can be deployed.

  The document may have any shape. Required members are looked for wherever the shape
  allows it: a text is searched for the name of a member, a list for an item equal to
  it. Where it does not, the check fails; it then keeps what it found.
-/

import MappingFlow.Document.Access

namespace MappingFlow.Dataflow

structure Findings where
  errors : List String
  warnings : List String
  deriving DecidableEq

def Findings.none : Findings := ⟨[], []⟩

abbrev Checking := ExceptT Fault (StateM Findings)

namespace Check

def reject (e : String) : Checking Unit := modify fun f => { f with errors := f.errors ++ [e] }

def warn (w : String) : Checking Unit := modify fun f => { f with warnings := f.warnings ++ [w] }

def holds (v : Value) (key : String) : Checking Bool := v.holdsKey key

def member (v : Value) (key : String) : Checking Value := v.field key

def membersOf (v : Value) : Checking (List Value) := v.items

/-- One error for each key that is not there. -/
def require (v : Value) (complain : String → String) : List String → Checking Unit
  | [] => return ()
  | key :: rest => do
    if !(← holds v key) then reject (complain key)
    require v complain rest

/-! ## The outer levels -/

/-- A member of the given kind. -/
def requireKind (v : Value) (absent : String → String) (wrong : String → Value.Kind → Value.Kind → String) :
    List (String × Value.Kind) → Checking Unit
  | [] => return ()
  | (key, kind) :: rest => do
    if ← holds v key then
      let w ← member v key
      if w.kind ≠ kind then reject (wrong key kind w.kind)
    else reject (absent key)
    requireKind v absent wrong rest

/-- A member that can have one value only. -/
def requireText (v : Value) (key expected : String) (complain : Value → String) : Checking Unit := do
  if ← holds v key then
    let w ← member v key
    if !w.isText expected then reject (complain w)

def dataflowType : String := "Microsoft.DataFactory/factories/dataflows"

def mappingType : String := "MappingDataFlow"

def topLevel (d : Value) : Checking Unit := do
  requireKind d (fun key => "Falta campo requerido: '" ++ key ++ "'")
    (fun key want got => "Campo '" ++ key ++ "' debe ser de tipo " ++ want.word ++ ", pero es " ++ got.word)
    [("name", .text), ("properties", .object), ("type", .text)]
  requireText d "type" dataflowType fun w =>
    "Campo 'type' debe ser '" ++ dataflowType ++ "', pero es '" ++ w.display ++ "'"

def propertiesLevel (p : Value) : Checking Unit := do
  requireKind p (fun key => "Falta campo requerido en properties: '" ++ key ++ "'")
    (fun key want _ => "Campo properties." ++ key ++ " debe ser de tipo " ++ want.word)
    [("type", .text), ("typeProperties", .object)]
  requireText p "type" mappingType fun w =>
    "Campo properties.type debe ser '" ++ mappingType ++ "', pero es '" ++ w.display ++ "'"

/-! ## References -/

def datasetReference (dataset : Value) (context : String) : Checking Unit := do
  require dataset (fun key => context ++ ": Dataset falta campo '" ++ key ++ "'") ["referenceName", "type"]
  requireText dataset "type" "DatasetReference" fun w =>
    context ++ ": Dataset type debe ser 'DatasetReference', pero es '" ++ w.display ++ "'"

def standardConditions : List String := ["Succeeded", "Failed", "Skipped", "Completed"]

def dependencyConditions (context : String) : List Value → Checking Unit
  | [] => return ()
  | c :: rest => do
    if !c.isOneOf standardConditions then
      warn (context ++ ": Condición de dependencia '" ++ c.display ++ "' no es estándar")
    dependencyConditions context rest

/-- `steps` are the names of the steps that may be depended on. -/
def dependency (steps : List Value) (context : String) (d : Value) : Checking Unit := do
  if ← holds d "activity" then
    if !(← holds d "dependencyConditions") then
      reject (context ++ ": Dependencia sin campo 'dependencyConditions'")
    let activity ← member d "activity"
    if !(← activity.inSet steps) then
      reject (context ++ ": Dependencia a actividad inexistente '" ++ activity.display ++ "'")
    if ← holds d "dependencyConditions" then
      let conditions ← member d "dependencyConditions"
      let conditions ← membersOf conditions
      dependencyConditions context conditions
  else reject (context ++ ": Dependencia sin campo 'activity'")

def dependencies (steps : List Value) (context : String) : List Value → Checking Unit
  | [] => return ()
  | d :: rest => do
    dependency steps context d
    dependencies steps context rest

def dependsOn (v : Value) (steps : List Value) (context : String) : Checking Unit :=
  if !v.isPresent then reject (context ++ ": dependsOn no puede estar vacío")
  else do
    let ds ← membersOf v
    dependencies steps context ds

/-! ## Settings of a step, by type -/

/-- A value with the members `value` and `type`. -/
def isTyped (v : Value) : Checking Bool := do
  if ← holds v "value" then holds v "type" else return false

def derivedColumn (name : String) (c : Value) : Checking Unit := do
  if !(← holds c "name") then reject ("DerivedColumn '" ++ name ++ "': Columna sin nombre")
  if ← holds c "value" then
    let v ← member c "value"
    if v.kind ≠ .object then
      reject ("DerivedColumn '" ++ name ++ "': Valor de columna debe ser objeto")
    else if !(← isTyped v) then
      reject ("DerivedColumn '" ++ name ++ "': Valor de columna debe tener 'value' y 'type'")
  else reject ("DerivedColumn '" ++ name ++ "': Columna sin valor")

def derivedColumns (name : String) : List Value → Checking Unit
  | [] => return ()
  | c :: rest => do
    derivedColumn name c
    derivedColumns name rest

def deriveSettings (p : Value) (name : String) : Checking Unit := do
  if ← holds p "columns" then
    let v ← member p "columns"
    let cs ← membersOf v
    derivedColumns name cs
  else reject ("DerivedColumn '" ++ name ++ "': Falta campo 'columns'")

def filterSettings (p : Value) (name : String) : Checking Unit := do
  if ← holds p "condition" then
    let c ← member p "condition"
    if c.kind ≠ .object then reject ("Filter '" ++ name ++ "': Condition debe ser objeto")
    else if !(← isTyped c) then reject ("Filter '" ++ name ++ "': Condition debe tener 'value' y 'type'")
  else reject ("Filter '" ++ name ++ "': Falta campo 'condition'")

def aggregateSettings (p : Value) (name : String) : Checking Unit := do
  if !(← holds p "groupBy") then
    warn ("Aggregate '" ++ name ++ "': No tiene groupBy (posible agregación total)")
  require p (fun key => "Aggregate '" ++ name ++ "': Falta campo '" ++ key ++ "'") ["aggregates"]

def joinKinds : List String := ["inner", "left", "right", "outer", "cross"]

def joinSettings (p : Value) (name : String) : Checking Unit := do
  require p (fun key => "Join '" ++ name ++ "': Falta campo '" ++ key ++ "'")
    ["joinType", "leftInput", "rightInput", "joinConditions"]
  if ← holds p "joinType" then
    let kind ← member p "joinType"
    if !kind.isOneOf joinKinds then
      warn ("Join '" ++ name ++ "': joinType '" ++ kind.display ++ "' no es estándar")

def changeConditions : List String :=
  ["insertCondition", "updateCondition", "deleteCondition", "upsertCondition"]

def holdsAny (p : Value) : List String → Checking Bool
  | [] => return false
  | key :: rest => do
    if ← holds p key then return true else holdsAny p rest

def changeSettings (p : Value) (name : String) : Checking Unit := do
  if !(← holdsAny p changeConditions) then
    reject ("AlterRow '" ++ name ++ "': Debe tener al menos una condición ("
      ++ ", ".intercalate changeConditions ++ ")")

def stepSettings (type p : Value) (name : String) : Checking Unit := do
  type.requireHashable
  match type with
  | .text "derivedColumn" => deriveSettings p name
  | .text "filter" => filterSettings p name
  | .text "aggregate" => aggregateSettings p name
  | .text "join" => joinSettings p name
  | .text "sort" => require p (fun key => "Sort '" ++ name ++ "': Falta campo '" ++ key ++ "'") ["sortColumns"]
  | .text "conditionalSplit" =>
    require p (fun key => "ConditionalSplit '" ++ name ++ "': Falta campo '" ++ key ++ "'") ["conditions"]
  | .text "lookup" =>
    require p (fun key => "Lookup '" ++ name ++ "': Falta campo '" ++ key ++ "'") ["lookupDataset"]
  | .text "alterRow" => changeSettings p name
  | _ => return ()

/-! ## Sources, transformations, sinks -/

def numbered (index : Nat) : String := "#" ++ toString (index + 1)

def source (index : Nat) (s : Value) : Checking Unit := do
  require s (fun key => "Source " ++ numbered index ++ ": Falta campo '" ++ key ++ "'") ["name", "dataset"]
  if ← holds s "dataset" then
    let dataset ← member s "dataset"
    let name ← s.fieldD "name" (.int index)
    datasetReference dataset ("Source '" ++ name.display ++ "'")

def sourcesFrom (index : Nat) : List Value → Checking Unit
  | [] => return ()
  | s :: rest => do
    source index s
    sourcesFrom (index + 1) rest

def sources (v : Value) : Checking Unit :=
  if !v.isPresent then warn "No hay sources definidos"
  else do
    let ss ← membersOf v
    sourcesFrom 0 ss

/-- The names of the sources, each of which has to have one. -/
def sourceNames : List Value → Checking (List Value)
  | [] => return []
  | s :: rest => do
    let name ← member s "name"
    name.requireHashable
    let names ← sourceNames rest
    return name :: names

/-- The step itself; answers the names of the steps that the next one may depend on. -/
def transformation (steps : List Value) (index : Nat) (t : Value) : Checking (List Value) := do
  let name ← t.fieldD "name" (.text (numbered index))
  let context := "Transformation '" ++ name.display ++ "'"
  require t (fun key => context ++ ": Falta campo '" ++ key ++ "'")
    ["name", "type", "dependsOn", "typeProperties"]
  if ← holds t "dependsOn" then
    let d ← member t "dependsOn"
    dependsOn d steps context
  if ← holds t "type" then
    if ← holds t "typeProperties" then
      let type ← member t "type"
      let p ← member t "typeProperties"
      stepSettings type p name.display
  if ← holds t "name" then
    let own ← member t "name"
    own.requireHashable
    return steps ++ [own]
  else return steps

def transformationsFrom (steps : List Value) (index : Nat) : List Value → Checking Unit
  | [] => return ()
  | t :: rest => do
    let steps ← transformation steps index t
    transformationsFrom steps (index + 1) rest

def transformations (v sourceList : Value) : Checking Unit := do
  let ss ← membersOf sourceList
  let steps ← sourceNames ss
  let ts ← membersOf v
  transformationsFrom steps 0 ts

/-- The names of the members that have one. -/
def namesOf : List Value → Checking (List Value)
  | [] => return []
  | s :: rest => do
    if ← holds s "name" then
      let name ← member s "name"
      name.requireHashable
      let names ← namesOf rest
      return name :: names
    else namesOf rest

def sink (steps : List Value) (index : Nat) (s : Value) : Checking Unit := do
  let name ← s.fieldD "name" (.text (numbered index))
  let context := "Sink '" ++ name.display ++ "'"
  require s (fun key => context ++ ": Falta campo '" ++ key ++ "'") ["name", "dataset", "dependsOn"]
  if ← holds s "dataset" then
    let dataset ← member s "dataset"
    datasetReference dataset context
  if ← holds s "dependsOn" then
    let d ← member s "dependsOn"
    dependsOn d steps context

def sinksFrom (steps : List Value) (index : Nat) : List Value → Checking Unit
  | [] => return ()
  | s :: rest => do
    sink steps index s
    sinksFrom steps (index + 1) rest

def sinks (v : Value) (steps : List Value) : Checking Unit :=
  if !v.isPresent then warn "No hay sinks definidos"
  else do
    let ss ← membersOf v
    sinksFrom steps 0 ss

/-! ## The whole -/

def requireLists (p : Value) : List String → Checking Unit
  | [] => return ()
  | key :: rest => do
    if ← holds p key then
      if key ≠ "scriptLines" then
        let v ← member p key
        if v.kind ≠ .list then reject ("Campo typeProperties." ++ key ++ " debe ser una lista")
    else reject ("Falta campo requerido en typeProperties: '" ++ key ++ "'")
    requireLists p rest

def flowSettings (p : Value) : Checking Unit := do
  requireLists p ["sources", "transformations", "sinks", "scriptLines"]
  if ← holds p "sources" then
    let v ← member p "sources"
    sources v
  if ← holds p "transformations" then
    let v ← member p "transformations"
    let ss ← p.fieldD "sources" (.list [])
    transformations v ss
  if ← holds p "sinks" then
    let ss ← p.fieldD "sources" (.list [])
    let ts ← p.fieldD "transformations" (.list [])
    let ss ← membersOf ss
    let sourceSteps ← namesOf ss
    let ts ← membersOf ts
    let steps ← namesOf ts
    let v ← member p "sinks"
    sinks v (sourceSteps ++ steps)

def dataflow (d : Value) : Checking Unit := do
  set Findings.none
  topLevel d
  if ← holds d "properties" then
    let p ← member d "properties"
    propertiesLevel p
  if ← holds d "properties" then
    let p ← member d "properties"
    if ← holds p "typeProperties" then
      let q ← member p "typeProperties"
      flowSettings q

end Check

end MappingFlow.Dataflow
