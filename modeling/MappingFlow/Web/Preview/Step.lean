/-
  MappingFlow.Web.Preview.Step — a transformation of the mapping on the screen.

  What is shown of it depends on its type; of a type not known here it is the whole
  transformation.
-/

import MappingFlow.Web.Page

namespace MappingFlow.Web.Preview

def unknown : Value := .text "N/A"

def sql (v : Value) : Page Unit := code v "sql"

/-- A label and a value after it, each line of its own. -/
def labelled (label : String) (v : Value) : Page Unit := markdown ("**" ++ label ++ ":** `" ++ v.display ++ "`")

def bullet (t : String) : Page Unit := plainText ("  • " ++ t)

/-- A part of an entry, or `N/A`. -/
def part (entry : Value) (key : String) : Except Fault Value := entry.fieldD key unknown

/-- The name and the expression of an entry. -/
def assignment (separator : String) (entry : Value) : Except Fault Value := do
  let name ← part entry "name"
  let expression ← part entry "expression"
  return .text (name.display ++ separator ++ expression.display)

/-- A property, or another value if it is not there. -/
def property (t : Transformation) (key : String) (absent : Value) : Value := t.properties.getD key absent

def listed (t : Transformation) (key : String) : Value := property t key (.list [])

def override (t : Transformation) : Page Unit := do
  let v := property t "sql_override" .null
  if v.isPresent then inExpander "View SQL Override" [] (sql v)

def sourceQualifier (t : Transformation) : Page Unit := do
  let filter := property t "source_filter" .null
  if filter.isPresent then sql (.text ("WHERE " ++ filter.display))
  override t

def joinSide (t : Transformation) (label key : String) : Page Unit := do
  markdown ("**" ++ label ++ ":**")
  let fields ← (listed t key).items
  fields.forM fun f => bullet f.display

def joiner (t : Transformation) : Page Unit := do
  labelled "Join Type" (property t "join_type" unknown)
  markdown "**Join Condition:**"
  sql (property t "join_condition" unknown)
  inExpander "View Fields" [] do
    columns 2
    inColumn 0 (joinSide t "Master Fields" "master_fields")
    inColumn 1 (joinSide t "Detail Fields" "detail_fields")

/-- So many aggregations are shown. -/
def aggregateLimit : Nat := 10

def assignments (entries : List Value) (language : String) : Page Unit :=
  entries.forM fun e => do
    let line ← assignment " = " e
    code line language

def aggregator (t : Transformation) : Page Unit := do
  markdown "**Group By:**"
  let groups ← (listed t "group_by").items
  groups.forM sql
  markdown "**Aggregations:**"
  let shown ← (listed t "aggregates").leading aggregateLimit
  assignments shown "sql"
  let count ← (listed t "aggregates").size
  if aggregateLimit < count then
    info ("... and " ++ toString (count - aggregateLimit) ++ " more aggregations")

def lookup (t : Transformation) : Page Unit := do
  labelled "Lookup Table" (property t "lookup_table" unknown)
  labelled "Source Type" (property t "source_type" (.text "Database"))
  markdown "**Lookup Condition:**"
  sql (property t "lookup_condition" unknown)
  override t

def routerGroup (group : Value) : Page Unit := do
  let expression ← group.fieldD "expression" .null
  if expression.isPresent then
    let line ← assignment ": " group
    sql line
  else
    let name ← group.fieldD "name" (.text "DEFAULT")
    plainText (name.display ++ ": DEFAULT")

def router (t : Transformation) : Page Unit := do
  markdown "**Output Groups:**"
  let groups ← (listed t "groups").items
  groups.forM routerGroup

def sorter (t : Transformation) : Page Unit := do
  markdown "**Sort Keys:**"
  let keys ← (listed t "sort_keys").items
  keys.forM fun k => do
    let name ← part k "name"
    let direction ← k.fieldD "direction" (.text "ASC")
    bullet (name.display ++ " (" ++ direction.display ++ ")")

/-- So many columns are shown at first. -/
def columnLimit : Nat := 5

def expressions (t : Transformation) : Page Unit := do
  markdown "**Derived Columns:**"
  let all := listed t "expressions"
  let shown ← all.leading columnLimit
  assignments shown "sql"
  let count ← all.size
  if columnLimit < count then
    inExpander ("View all " ++ toString count ++ " expressions") [] do
      let items ← all.items
      assignments items "sql"

def filter (t : Transformation) : Page Unit := do
  markdown "**Filter Condition:**"
  sql (property t "filter_condition" unknown)

/-- What belongs to the type of the transformation. -/
def stepDetails (t : Transformation) : Page Unit :=
  match t.type with
  | "Source Qualifier" => sourceQualifier t
  | "Joiner" => joiner t
  | "Aggregator" => aggregator t
  | "Lookup" => lookup t
  | "Router" => router t
  | "Sorter" => sorter t
  | "Expression" => expressions t
  | "Filter" => filter t
  | _ => inExpander "View Fields" [] (showJson t.toValue)

def step : Option Transformation → Page Unit
  | none => showError "Transformation not found"
  | some t => do
    labelled "Type" (.text t.type)
    labelled "Name" (.text t.name)
    match t.description with
    | none => pure ()
    | some d => if !d.isEmpty then info ("📝 " ++ d)
    stepDetails t

end MappingFlow.Web.Preview
