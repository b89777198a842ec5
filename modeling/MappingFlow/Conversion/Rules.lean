/-
  MappingFlow.Conversion.Rules — what transformations, functions and datatypes become.

  Rules come from a document, so each table is a value of unknown shape until it is
  used. `Rules.builtIn` stands in when there is no document; `Rules.standard` are the
  rules the program ships with.
-/

import MappingFlow.Document.Access

namespace MappingFlow

structure Rules where
  transformations : Value
  functions : Value
  datatypes : Value

namespace Rules

/-- A table that the document does not have is empty. -/
def ofValue (v : Value) : Except Fault Rules := do
  let transformations ← v.fieldD "transformations" (.object [])
  let functions ← v.fieldD "functions" (.object [])
  let datatypes ← v.fieldD "datatypes" (.object [])
  return ⟨transformations, functions, datatypes⟩

def table (rows : List (String × String)) : Value := .object (rows.map fun r => (r.1, .text r.2))

def builtIn : Rules where
  transformations := table
    [("Source Qualifier", "Source"), ("Expression", "DerivedColumn"), ("Filter", "Filter"),
     ("Aggregator", "Aggregate"), ("Joiner", "Join"), ("Sorter", "Sort"), ("Router", "ConditionalSplit"),
     ("Lookup", "Lookup"), ("Lookup Procedure", "Lookup"), ("Update Strategy", "AlterRow")]
  functions := table
    [("TO_DATE", "toDate"), ("TO_CHAR", "toString"), ("SYSDATE", "currentTimestamp()"),
     ("SUBSTR", "substring"), ("TRIM", "trim"), ("UPPER", "upper"), ("LOWER", "lower"),
     ("LENGTH", "length"), ("DECODE", "case"), ("IIF", "iif"), ("INSTR", "indexOf"),
     ("CONCAT", "concat"), ("SUM", "sum"), ("AVG", "avg"), ("COUNT", "count"), ("MIN", "min"),
     ("MAX", "max"), ("FIRST", "first"), ("LAST", "last")]
  datatypes := table
    [("decimal", "Int32"), ("number", "Int32"), ("varchar2", "String"), ("string", "String"),
     ("char", "String"), ("varchar", "String"), ("date", "DateTime"), ("timestamp", "DateTime"),
     ("datetime", "DateTime"), ("integer", "Int32"), ("int", "Int32"), ("bigint", "Int64"),
     ("float", "Double"), ("double", "Double"), ("boolean", "Boolean")]

def standard : Rules where
  transformations := table
    [("Source Qualifier", "Source"), ("Expression", "DerivedColumn"), ("Filter", "Filter"),
     ("Aggregator", "Aggregate"), ("Joiner", "Join"), ("Sorter", "Sort"), ("Router", "ConditionalSplit"),
     ("Lookup", "Lookup"), ("Lookup Procedure", "Lookup")]
  functions := table
    [("TO_DATE", "toDate"), ("SYSDATE", "currentTimestamp()"), ("SUBSTR", "substring"), ("TRIM", "trim"),
     ("LTRIM", "ltrim"), ("RTRIM", "rtrim"), ("UPPER", "upper"), ("LOWER", "lower"),
     ("LENGTH", "length"), ("DECODE", "case"), ("IIF", "iif"), ("INSTR", "indexOf"),
     ("CONCAT", "concat"), ("REPLACE", "replace"), ("ROUND", "round"), ("CEIL", "ceil"),
     ("FLOOR", "floor"), ("ABS", "abs"), ("POWER", "power"), ("SQRT", "sqrt"),
     ("ADD_TO_DATE", "addDays"), ("TRUNC", "startOfDay"), ("IS_DATE", "isDate"),
     ("IS_NUMBER", "isInteger"), ("TO_CHAR", "toString"), ("TO_INTEGER", "toInteger"),
     ("TO_DECIMAL", "toDecimal"), ("NVL", "coalesce"), ("ISNULL", "isNull"), ("SUM", "sum"),
     ("AVG", "avg"), ("COUNT", "count"), ("MIN", "min"), ("MAX", "max"), ("STDDEV", "stddev"),
     ("VARIANCE", "variance")]
  datatypes := table
    [("decimal", "Decimal"), ("number", "Int32"), ("integer", "Int32"), ("smallint", "Int16"),
     ("bigint", "Int64"), ("double", "Double"), ("float", "Float"), ("real", "Float"),
     ("varchar", "String"), ("varchar2", "String"), ("string", "String"), ("char", "String"),
     ("nstring", "String"), ("nvarchar", "String"), ("text", "String"), ("date", "DateTime"),
     ("timestamp", "DateTime"), ("datetime", "DateTime"), ("binary", "Binary"), ("boolean", "Boolean"),
     ("bool", "Boolean")]

/-- What a transformation of the given type becomes; null if the rules do not say. -/
def stepType (r : Rules) (type : String) : Except Fault Value := r.transformations.fieldD type .null

/-- What a datatype becomes, without regard to case; text if the rules do not say. -/
def datatype (r : Rules) (name : String) : Except Fault Value := do
  let v ← r.datatypes.fieldD (String.ofList (Text.lower name.toList)) .null
  return v.orElse (.text "String")

def databaseTypes : List (String × String) :=
  [("Oracle", "OracleTable"), ("Microsoft SQL Server", "AzureSqlTable"), ("Flat File", "DelimitedText")]

def databaseType (name : String) : String := (databaseTypes.lookup name).getD "AzureSqlTable"

/-! ## Expressions that do not convert -/

/-- One function name replaced everywhere, without regard to case. -/
def renameFunction (name : String) (target : Value) (v : Value) : Except Fault Value :=
  match target with
  | .text template => do
    let t ← match Template.read 0 template.toList with
      | .ok t => .ok t
      | .error e => .error (Fault.template e)
    match v with
    | .text s => return .text (String.ofList ((Pattern.caseless name.toList).substitute t s.toList))
    | v => .error (.notMatchable v.kind)
  | target => .error (.badReplacement target.kind)

def renameFunctions (v : Value) : Fields → Except Fault Value
  | [] => .ok v
  | (name, target) :: rest => do
    let w ← renameFunction name target v
    renameFunctions w rest

/-- Functions renamed by the table, and joins by a word. -/
def rename (r : Rules) (v : Value) : Except Fault String := do
  let table ← r.functions.fieldsFor "items"
  let w ← renameFunctions v table
  let s ← w.textFor "replace"
  return String.ofList (Text.replace ['|', '|'] "concat".toList s.toList)

/-- The conversion of an expression; if it leaves a construct of the source language,
    functions are only renamed. -/
def convert (r : Rules) (v : Value) : Except Fault String :=
  if !v.isPresent then .ok ""
  else
    match v with
    | .text s => match Expression.convert s.toList with
      | .ok t => .ok (String.ofList t)
      | .error _ => r.rename v
    | v => r.rename v

end Rules

end MappingFlow
