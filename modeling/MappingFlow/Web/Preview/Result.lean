/-
  MappingFlow.Web.Preview.Result — what a transformation was converted to, on the screen.
-/

import MappingFlow.Web.Preview.Step

namespace MappingFlow.Web.Preview

/-- The converted step that goes by a name, its own or that of the transformation it was
made of. -/
def findIn (name : String) : List Value → Except Fault (Option Value)
  | [] => .ok none
  | t :: rest => do
    let source ← t.fieldD "source_name" .null
    if source.isText name then return some t
    let own ← t.fieldD "name" .null
    if own.isText name then return some t
    findIn name rest

def findResult (plan : Value) (name : String) : Except Fault (Option Value) := do
  let steps ← plan.fieldD "transformations" (.list [])
  let items ← steps.items
  findIn name items

/-- Conditions are shown as code of this kind. -/
def language : String := "python"

def script (v : Value) : Page Unit := code v language

def entries (t : Value) (key : String) : Except Fault (List Value) := do
  let v ← t.fieldD key (.list [])
  v.items

def condition (c : Value) : Except Fault Value := do
  let left ← part c "leftColumn"
  let operator ← c.fieldD "operator" (.text "==")
  let right ← part c "rightColumn"
  return .text (left.display ++ " " ++ operator.display ++ " " ++ right.display)

def conditions (t : Value) (key : String) : Page Unit := do
  let cs ← entries t key
  cs.forM fun c => do
    let line ← condition c
    script line

def sourceResult (t : Value) : Page Unit := do
  let dataset ← part t "dataset"
  labelled "Dataset" dataset
  let filter ← t.fieldD "sourceFilter" .null
  if filter.isPresent then code filter "sql"

def joinResult (t : Value) : Page Unit := do
  let type ← part t "joinType"
  labelled "Join Type" type
  markdown "**Join Conditions:**"
  conditions t "joinConditions"

def aggregateResult (t : Value) : Page Unit := do
  markdown "**Group By:**"
  let groups ← entries t "groupBy"
  groups.forM script
  markdown "**Aggregates:**"
  let aggregates ← entries t "aggregates"
  assignments aggregates language

def lookupResult (t : Value) : Page Unit := do
  let dataset ← part t "lookupDataset"
  labelled "Dataset" dataset
  markdown "**Lookup Conditions:**"
  conditions t "lookupConditions"

def splitResult (t : Value) : Page Unit := do
  markdown "**Conditions:**"
  let cs ← entries t "conditions"
  cs.forM fun c => do
    let line ← assignment ": " c
    script line

def sortResult (t : Value) : Page Unit := do
  markdown "**Sort Columns:**"
  let cs ← entries t "sortColumns"
  cs.forM fun c => do
    let name ← part c "name"
    let order ← c.fieldD "order" (.text "asc")
    bullet (name.display ++ " (" ++ order.display ++ ")")

def deriveResult (t : Value) : Page Unit := do
  markdown "**Columns:**"
  let all ← t.fieldD "columns" (.list [])
  let shown ← all.leading columnLimit
  assignments shown language
  let count ← all.size
  if columnLimit < count then info ("... and " ++ toString (count - columnLimit) ++ " more columns")

def filterResult (t : Value) : Page Unit := do
  markdown "**Filter Expression:**"
  let condition ← part t "condition"
  script condition

/-- What belongs to the type of the step. -/
def resultDetails (t : Value) : Page Unit := do
  match ← t.fieldD "type" (.text "") with
  | .text "source" => sourceResult t
  | .text "join" => joinResult t
  | .text "aggregate" => aggregateResult t
  | .text "lookup" => lookupResult t
  | .text "conditionalSplit" => splitResult t
  | .text "sort" => sortResult t
  | .text "derivedColumn" => deriveResult t
  | .text "filter" => filterResult t
  | _ => pure ()

def result : Option Value → Page Unit
  | none => warning "No ADF equivalent found"
  | some t => do
    let type ← t.fieldD "type" (.text "Unknown")
    labelled "Type" type
    let name ← t.fieldD "name" (.text "Unknown")
    labelled "Name" name
    inExpander "📄 View JSON Configuration" [] (showJson t)
    resultDetails t

end MappingFlow.Web.Preview
