/-
  MappingFlow.Dataflow.Script — the block of a step.

  A step is a document; what it names is written as it is displayed. `previous` is the
  stream before the step and `earlier` are the steps already written, whose lookups
  decide what columns are called. An expression that does not look right is noted and
  written all the same.
-/

import MappingFlow.Dataflow.Block
import MappingFlow.Dataflow.Disambiguation
import MappingFlow.Generation.State

namespace MappingFlow.Dataflow.Script

open Generation Pattern

/-- The first member of a value and the others. -/
def headAndTail (v : Value) : Except Fault (Value × List Value) :=
  match v with
  | .list (x :: xs) => .ok (x, xs)
  | .list [] => .error .outOfRange
  | .text s => match s.toList with
    | c :: cs => .ok (.text (String.ofList [c]), cs.map fun d => .text (String.ofList [d]))
    | [] => .error .outOfRange
  | .object _ => .error (.missingNumber 0)
  | v => .error (.notIndexable v.kind)

/-! ## Sources -/

def scriptTypes : List (String × String) :=
  [("String", "string"), ("Int32", "integer"), ("Int64", "long"), ("Double", "double"),
   ("Decimal", "decimal"), ("DateTime", "timestamp"), ("Date", "date"), ("Boolean", "boolean"),
   ("Binary", "binary")]

/-- The word of the script language for a datatype. -/
def scriptType (v : Value) : Except Fault String := do
  v.requireHashable
  match v with
  | .text s => return (scriptTypes.lookup s).getD "string"
  | _ => return "string"

def schemaColumn (v : Value) : Except Fault (String × String) := do
  let name ← v.fieldD "name" (.text "unknown")
  let declared ← v.fieldD "type" (.text "string")
  let type ← scriptType declared
  return (name.display, type)

def sourceBlock (s : Value) : Except Fault Block := do
  let name ← s.field "name"
  let schema ← s.fieldD "schema" (.list [])
  let columns ← if schema.isPresent then do
      let items ← schema.items
      items.mapM schemaColumn
    else pure []
  return .source columns name.display

/-! ## Derived columns, filters, aggregates -/

/-- A column that only repeats itself is left out. -/
def isKept (c : Value) : Except Fault Bool := do
  let name ← c.field "name"
  let e ← c.fieldD "expression" (.text "")
  let s ← e.textFor "strip"
  return !name.isText (String.ofList (Text.trim s.toList))

def keptColumns : List Value → Except Fault (List Value)
  | [] => .ok []
  | c :: rest => do
    let kept ← isKept c
    let cs ← keptColumns rest
    return if kept then c :: cs else cs

def derivedColumn (earlier : List Value) (c : Value) : Generating Assignment := do
  let name ← c.field "name"
  let e ← c.fieldD "expression" (.text "")
  let e ← disambiguate earlier e
  let s ← reviewExpression ("Expresión inválida en columna '" ++ name.display ++ "'") e
  return ⟨name.display, s⟩

def derivedColumns (earlier : List Value) : List Value → Generating (List Assignment)
  | [] => return []
  | c :: rest => do
    let a ← derivedColumn earlier c
    let as ← derivedColumns earlier rest
    return a :: as

def deriveBlock (t previous : Value) (earlier : List Value) : Generating Block := do
  let name ← t.field "name"
  let columns ← t.fieldD "columns" (.list [])
  let columns ← columns.items
  let kept ← keptColumns columns
  let assignments ← derivedColumns earlier kept
  return .derive previous.display assignments name.display

def filterBlock (t previous : Value) (earlier : List Value) : Generating Block := do
  let name ← t.field "name"
  let condition ← t.fieldD "condition" (.text "true()")
  let condition ← disambiguate earlier condition
  let s ← reviewExpression ("Condición inválida en filtro '" ++ name.display ++ "'") condition
  return .filter previous.display s name.display

def aggregateFunctions : List String :=
  ["SUM", "AVG", "COUNT", "MIN", "MAX", "FIRST", "LAST", "STDDEV", "VARIANCE", "MEDIAN", "PERCENTILE",
   "COUNT_DISTINCT", "COLLECT_LIST", "COLLECT_SET"]

/-- A function name in lower case wherever it is a word of its own. -/
def lowerFunction (t : List Char) (name : String) : List Char :=
  (all [wordEdge, caseless name.toList, wordEdge]).substitute (Template.plain (Text.lower name.toList)) t

def lowerFunctions (t : List Char) : List Char := aggregateFunctions.foldl lowerFunction t

def groupColumns (earlier : List Value) (v : Value) : Except Fault (Option String) :=
  if !v.isPresent then .ok none
  else do
    let items ← v.items
    let columns ← items.mapM (disambiguate earlier)
    let joined ← Value.joined ", " (.list columns)
    return some joined

/-- A column assigned to itself takes its first value. -/
def aggregateColumn (earlier : List Value) (c : Value) : Generating Assignment := do
  let name ← c.field "name"
  let e ← c.fieldD "expression" (.text "")
  let e ← disambiguate earlier e
  let s ← reviewExpression ("Expresión de agregación inválida '" ++ name.display ++ "'") e
  let t := lowerFunctions s.toList
  let lowered := String.ofList t
  if name.isText (String.ofList (Text.trim t)) then return ⟨name.display, "first(" ++ lowered ++ ")"⟩
  else return ⟨name.display, lowered⟩

def aggregateColumns (earlier : List Value) : List Value → Generating (List Assignment)
  | [] => return []
  | c :: rest => do
    let a ← aggregateColumn earlier c
    let as ← aggregateColumns earlier rest
    return a :: as

def aggregateBlock (t previous : Value) (earlier : List Value) : Generating Block := do
  let name ← t.field "name"
  let groupBy ← t.fieldD "groupBy" (.list [])
  let aggregates ← t.fieldD "aggregates" (.list [])
  let groups ← groupColumns earlier groupBy
  let items ← aggregates.items
  let columns ← aggregateColumns earlier items
  return .aggregate previous.display groups columns name.display

/-! ## Joins and lookups -/

def columnPair (c : Value) : Except Fault (Value × Value) := do
  let left ← c.fieldD "leftColumn" (.text "")
  let right ← c.fieldD "rightColumn" (.text "")
  return (left, right)

/-- The members of a list of conditions, if there are any. -/
def conditionItems (v : Value) : Except Fault (List Value) :=
  if !v.isPresent then .ok []
  else do
    let (first, rest) ← headAndTail v
    return first :: rest

def joinBlock (t : Value) : Generating Block := do
  let name ← t.field "name"
  let kind ← t.fieldD "joinType" (.text "inner")
  let conditions ← t.fieldD "joinConditions" (.list [])
  let left ← t.fieldD "leftInput" .null
  let right ← t.fieldD "rightInput" .null
  if !left.isPresent || !right.isPresent then
    reportError ("ERROR CRÍTICO: Join '" ++ name.display ++ "' no tiene inputs válidos. leftInput="
      ++ left.display ++ ", rightInput=" ++ right.display)
  let left := left.orElse (.text "MISSING_LEFT_INPUT")
  let right := right.orElse (.text "MISSING_RIGHT_INPUT")
  if left.same right then
    warn ("WARNING: Join '" ++ name.display ++ "' tiene el mismo input en ambos lados: '" ++ left.display
      ++ "'. Esto puede ser un self-join erróneo.")
  let items ← conditionItems conditions
  let pairs ← (items.mapM columnPair : Except Fault (List (Value × Value)))
  return .join left.display right.display (pairs.map fun p => ⟨p.1.display, p.2.display⟩) kind.display
    name.display

def suffixPattern : Pattern := all [group 1 (shortest isInLine), longest Text.isDigit, finish]

/-- A column name without the number at its end. -/
def withoutSuffix (v : Value) : Except Fault String :=
  match v with
  | .text s => match suffixPattern.at? [] s.toList with
    | some m => .ok (String.ofList (m.group 1))
    | none => .ok s
  | v => .error (.notMatchable v.kind)

/-- In a lookup condition the column of the lookup comes first; in the script it comes
    second. -/
def lookupPair (c : Value) : Except Fault ColumnPair := do
  let (left, right) ← columnPair c
  let column ← withoutSuffix left
  let main ← withoutSuffix right
  return ⟨main, column⟩

def lookupBlock (t previous : Value) : Except Fault Block := do
  let name ← t.field "name"
  let conditions ← t.fieldD "lookupConditions" (.list [])
  let table ← t.fieldD "lookupDataset" (.text "UnknownLookupSource")
  let main ← t.fieldD "mainInput" .null
  let items ← conditionItems conditions
  let pairs ← items.mapM lookupPair
  return .lookup (main.orElse previous).display table.display pairs name.display

/-! ## Sorts, splits, selections -/

def sortColumn (c : Value) : Except Fault (Option SortColumn) :=
  match c with
  | .object fs =>
    let name := Fields.getD fs "name" (Fields.getD fs "column" (.text ""))
    let direction := Fields.getD fs "order" (Fields.getD fs "direction" (.text "asc"))
    .ok (if name.isPresent then some ⟨direction.display, name.display⟩ else none)
  | c => .ok (if c.isPresent then some ⟨"asc", c.display⟩ else none)

def sortBlock (t previous : Value) : Except Fault Block := do
  let name ← t.field "name"
  let columns ← t.fieldD "orderBy" (.list [])
  let items ← columns.items
  let columns ← items.mapM sortColumn
  return .sort previous.display columns name.display

/-- The stream and the condition of a branch; `number` names a stream without a name. -/
def branch (number : Nat) (c : Value) : Generating (Value × String) := do
  let stream ← c.fieldD "name" (.text ("stream" ++ toString number))
  let e ← c.fieldD "expression" (.text "")
  let s ← reviewExpression ("Condición inválida en split '" ++ stream.display ++ "'") e
  return (stream, s)

def branchesFrom (number : Nat) : List Value → Generating (List (Value × String))
  | [] => return []
  | c :: rest => do
    let b ← branch number c
    let bs ← branchesFrom (number + 1) rest
    return b :: bs

def splitBlock (t previous : Value) : Generating Block := do
  let name ← t.field "name"
  let conditions ← t.fieldD "conditions" (.list [])
  let items ← conditionItems conditions
  let branches ← branchesFrom 1 items
  let streams ← Value.joinItems 0 (branches.map (·.1))
  return .split previous.display ((streams.zip branches).map fun b => ⟨b.1, b.2.2⟩) name.display

def selectedColumn (c : Value) : String :=
  match c with
  | .object fs => (Fields.getD fs "name" (.text "")).display
  | c => c.display

def selectBlock (t previous : Value) : Except Fault Block := do
  let name ← t.field "name"
  let columns ← t.fieldD "columns" (.list [])
  let items ← columns.items
  return .select previous.display (items.map selectedColumn) name.display

/-! ## Steps and sinks -/

/-- A step of a type without a block of its own only passes its stream on. -/
def stepBlock (t previous : Value) (earlier : List Value) : Generating Block := do
  let type ← t.field "type"
  let name ← t.field "name"
  match type with
  | .text "DerivedColumn" => deriveBlock t previous earlier
  | .text "Filter" => filterBlock t previous earlier
  | .text "Aggregate" => aggregateBlock t previous earlier
  | .text "Join" => joinBlock t
  | .text "Sort" => sortBlock t previous
  | .text "ConditionalSplit" => splitBlock t previous
  | .text "Lookup" => lookupBlock t previous
  | .text "Select" => selectBlock t previous
  | _ => return .pass previous.display name.display

def sinkBlock (s previous : Value) : Except Fault Block := do
  let name ← s.field "name"
  return .sink previous.display name.display

end MappingFlow.Dataflow.Script
