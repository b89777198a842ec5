/-
  MappingFlow.Dataflow.Datasets — the names of datasets.

  A table gives the exact names that are known. Any other dataset is named after its
  source or target; a source that looks like the table of a lookup is named so.
-/

import MappingFlow.Document.Access

namespace MappingFlow.Dataflow

structure DatasetNames where
  table : Value

namespace DatasetNames

/-- The table of a document; a document that cannot be measured is refused. -/
def ofValue (v : Value) : Except Fault DatasetNames := do
  let table ← v.fieldD "mappings" (.object [])
  let _ ← table.size
  return ⟨table⟩

def empty : DatasetNames := ⟨.object []⟩

def standard : DatasetNames where
  table := .object (List.map (fun r => (r.1, .text r.2))
    [("dates", "ds_dates"), ("STG_DATES", "ds_STG_DATES"),
     ("VENTA_DIARIA_20250928", "ds_VENTA_DIARIA_20250928"), ("VENTA_DIARIA", "ds_VENTA_DIARIA"),
     ("ERRORES_DUPLICADOS", "ds_ERRORES_DUPLICADOS"), ("ERRORES_VENTA_DIARIA", "ds_ERRORES_VENTA_DIARIA"),
     ("VENTAS", "ds_source_ventas"), ("POLIZAS", "ds_source_polizas"), ("VENTAPOL", "ds_VENTAPOL"),
     ("employees_layout", "ds_employees_layout"), ("lkp_salaries", "ds_lkp_salaries"),
     ("STG_EMPLOYEES", "ds_STG_EMPLOYEES"), ("DIM_PROMOTIONS", "ds_DIM_PROMOTIONS"),
     ("STG_TRANSACTIONS", "ds_STG_TRANSACTIONS"), ("DIM_DATES", "ds_DIM_DATES"),
     ("STG_PRODUCT", "ds_STG_PRODUCT"), ("FACT_PROMOTIONS_AGG_DAILY", "ds_FACT_PROMOTIONS_AGG_DAILY")])

def lookupMark : List Char := "lkp_".toList

def looksUp (t : List Char) : Bool :=
  lookupMark.isPrefixOf t || Text.contains "lookup".toList (Text.lower t)

/-- The name of a dataset that the table does not have. -/
def plainName (name : Value) (isSource : Bool) : Except Fault String :=
  if isSource then do
    let s ← name.textFor "startswith"
    if looksUp s.toList then return "ds_lkp_" ++ String.ofList (Text.replace lookupMark [] s.toList)
    else return "ds_source_" ++ s
  else .ok ("ds_" ++ name.display)

/-- The entry of a table for a name it holds. -/
def entry (table name : Value) : Except Fault Value :=
  match table, name with
  | .object fs, .text s => match Fields.get? fs s with
    | some v => .ok v
    | none => .error (.missingKey s)
  | .object _, _ => .error (.missingKey name.display)
  | .list _, _ => .error (.listIndexed name.kind)
  | .text _, _ => .error (.textIndexed name.kind)
  | v, _ => .error (.notIndexable v.kind)

def name (d : DatasetNames) (n : Value) (isSource : Bool) : Except Fault Value := do
  if ← d.table.holds n then entry d.table n
  else
    let s ← plainName n isSource
    return .text s

end DatasetNames

/-- The name of a dataset where no table is used. -/
def plainDataset (name : Value) (isSource : Bool) : String :=
  (if isSource then "ds_source_" else "ds_") ++ name.display

def datasetReference (name : Value) : Value :=
  .object [("referenceName", name), ("type", .text "DatasetReference")]

end MappingFlow.Dataflow
