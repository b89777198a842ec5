/-
  MappingFlow.Mapping.Properties — the properties of each kind of transformation, from
  its element.

  They come from the fields of the element (sort keys, group-by fields, master and
  detail fields, …) and from its named attributes. A named attribute that occurs twice
  counts with its last value; one that is not named here is ignored.
-/

import MappingFlow.Fault
import MappingFlow.Markup.Element

namespace MappingFlow.Properties

open Markup

def fieldElements (e : Element) : List Element := e.findAll "TRANSFORMFIELD"

def nameOf (e : Element) : Value := .ofOption (e.attribute? "NAME")

def isYes (s : String) : Bool := Text.upper s.toList == "YES".toList

def mentions (s part : String) : Bool := Text.contains part.toList s.toList

/-- A whole number in an attribute; zero if the attribute is not there. -/
def integerAt (e : Element) (key : String) : Except Fault Int :=
  match e.attribute? key with
  | none => .ok 0
  | some s => match Text.readInteger s.toList with
    | .ok n => .ok n
    | .error cause => .error (.badInteger s cause)

/-- How the value of a named attribute is kept. -/
inductive Reading where
  | plain
  | yes

def Reading.value : Reading → String → Value
  | plain, s => .text s
  | yes, s => .bool (isYes s)

/-- The named attributes of an element that a table knows, entered over the given
    properties. -/
def withAttributes (table : List (String × String × Reading)) (e : Element) (fs : Fields) : Fields :=
  (e.findAll "TABLEATTRIBUTE").foldl
    (fun fs a => match (a.attribute? "NAME").bind (List.lookup · table) with
      | some (key, reading) => fs.insert key (reading.value (a.attributeD "VALUE" ""))
      | none => fs)
    fs

/-! ## Sorter -/

structure SortKey where
  name : Value
  direction : String
  order : Int

def SortKey.toValue (k : SortKey) : Value :=
  .object [("name", k.name), ("direction", .text k.direction), ("order", .int k.order)]

def sortKey? (e : Element) : Except Fault (Option SortKey) :=
  if e.attribute? "ISSORTKEY" = some "YES" then do
    let order ← integerAt e "SORTORDER"
    return some ⟨nameOf e, e.attributeD "SORTDIRECTION" "ASCENDING", order⟩
  else .ok none

/-- By their order; keys of the same order stay as they are. -/
def sortKeys (ks : List SortKey) : List SortKey := ks.mergeSort fun a b => a.order ≤ b.order

def sorter (e : Element) : Except Fault Fields := do
  let keys ← (fieldElements e).filterMapM sortKey?
  return withAttributes
    [("Distinct", "distinct", .yes), ("Case Sensitive", "case_sensitive", .yes),
     ("Null Treated Low", "null_treated_low", .yes)] e
    [("sort_keys", .list ((sortKeys keys).map (·.toValue))), ("distinct", .bool false),
     ("case_sensitive", .bool true), ("null_treated_low", .bool false)]

/-! ## Update strategy -/

def strategies : List String := ["DD_INSERT", "DD_UPDATE", "DD_DELETE", "DD_REJECT"]

/-- The first strategy an expression mentions. -/
def strategyIn? (s : String) : Option String := strategies.find? (mentions s)

/-- An output field with an expression states the strategy. -/
def withStrategy (fs : Fields) (e : Element) : Fields :=
  if e.attribute? "PORTTYPE" = some "OUTPUT" then
    match e.attribute? "EXPRESSION" with
    | none => fs
    | some s =>
      if s = "" then fs
      else
        let fs := fs.insert "strategy_expression" (.text s)
        match strategyIn? s with
        | some strategy => fs.insert "strategy" (.text strategy)
        | none => fs
  else fs

def updateStrategy (e : Element) : Fields :=
  withAttributes
    [("Forward Rejected Rows", "forward_rejected_rows", .yes),
     ("Update Strategy Expression", "strategy_expression", .plain)] e
    ((fieldElements e).foldl withStrategy
      [("strategy", .text "DD_INSERT"), ("strategy_expression", .null),
       ("forward_rejected_rows", .bool false)])

/-! ## Aggregator -/

def isGroupBy (e : Element) : Bool := e.attributeD "EXPRESSIONTYPE" "" == "GROUPBY"

/-- The expression of a field that aggregates. -/
def aggregate? (e : Element) : Option Value :=
  if e.attributeD "EXPRESSIONTYPE" "" = "GENERAL" then
    match e.attribute? "EXPRESSION" with
    | none => none
    | some s =>
      if s = "" then none
      else some (.object [("name", nameOf e), ("expression", .text s),
        ("datatype", .text (e.attributeD "DATATYPE" "string"))])
  else none

def aggregator (e : Element) : Fields :=
  withAttributes [("Sorted Input", "sorted_input", .yes)] e
    [("group_by_fields", .list (((fieldElements e).filter isGroupBy).map nameOf)),
     ("aggregate_expressions", .list ((fieldElements e).filterMap aggregate?)),
     ("sorted_input", .bool false)]

/-! ## Joiner -/

def directionOf (e : Element) : String := e.attributeD "PORTTYPE" ""

def isMaster (e : Element) : Bool := mentions (directionOf e) "MASTER"

def isDetail (e : Element) : Bool :=
  !isMaster e && (directionOf e == "INPUT/OUTPUT" || directionOf e == "OUTPUT")

def joiner (e : Element) : Fields :=
  withAttributes
    [("Join Condition", "join_condition", .plain), ("Join Type", "join_type", .plain),
     ("Sorted Input", "sorted_input", .yes), ("Master Sort Order", "master_sort_order", .plain)] e
    [("join_type", .text "Normal Join"), ("join_condition", .text ""),
     ("master_fields", .list (((fieldElements e).filter isMaster).map nameOf)),
     ("detail_fields", .list (((fieldElements e).filter isDetail).map nameOf)),
     ("sorted_input", .bool false), ("master_sort_order", .text "Auto")]

/-! ## Lookup -/

def isLookup (e : Element) : Bool := mentions (directionOf e) "LOOKUP"

def isOutput (e : Element) : Bool := mentions (directionOf e) "OUTPUT"

def returned (e : Element) : Value :=
  .object [("name", nameOf e), ("datatype", .text (e.attributeD "DATATYPE" "string"))]

def flatFile (e : Element) : Except Fault Value := do
  let skipped ← integerAt e "SKIPROWS"
  return .object [("delimited", .bool (e.attribute? "DELIMITED" == some "YES")),
    ("delimiters", .text (e.attributeD "DELIMITERS" ",")), ("skip_rows", .int skipped)]

def lookup (e : Element) : Except Fault Fields := do
  let fields := fieldElements e
  let base := withAttributes
    [("Lookup table name", "lookup_table", .plain), ("Source Type", "source_type", .plain),
     ("Lookup condition", "lookup_condition", .plain), ("Lookup Sql Override", "sql_override", .plain),
     ("Lookup caching enabled", "cache_enabled", .yes),
     ("Lookup policy on multiple match", "multiple_match_policy", .plain)] e
    [("lookup_table", .null), ("source_type", .text "Database"), ("lookup_condition", .text ""),
     ("sql_override", .null),
     ("return_fields", .list ((fields.filter fun f => isLookup f && isOutput f).map returned)),
     ("cache_enabled", .bool true), ("multiple_match_policy", .text "Use Any Value"),
     ("lookup_fields", .list ((fields.filter fun f => isLookup f && !isOutput f).map nameOf))]
  match e.find? "FLATFILE" with
  | none => return base
  | some file => do
    let v ← flatFile file
    return base.insert "flat_file" v

/-! ## Router -/

structure RouterGroup where
  name : Option String
  isDefault : Bool
  expression : Option String
  fields : List Value

def RouterGroup.toValue (g : RouterGroup) : Value :=
  .object [("name", .ofOption g.name), ("type", .text (if g.isDefault then "default" else "output")),
    ("expression", if g.isDefault then .null else .ofOption g.expression), ("fields", .list g.fields)]

def group? (e : Element) : Option RouterGroup :=
  let type := e.attributeD "TYPE" ""
  if mentions type "DEFAULT" then some ⟨e.attribute? "NAME", true, none, []⟩
  else if mentions type "OUTPUT" then some ⟨e.attribute? "NAME", false, e.attribute? "EXPRESSION", []⟩
  else none

/-- A field goes to the first group of the name it gives. -/
def addToGroup (name : String) (field : Value) : List RouterGroup → List RouterGroup
  | [] => []
  | g :: rest =>
    if g.name = some name then { g with fields := g.fields ++ [field] } :: rest
    else g :: addToGroup name field rest

def withField (gs : List RouterGroup) (e : Element) : List RouterGroup :=
  match e.attribute? "GROUP" with
  | none => gs
  | some name =>
    if name != "" && isOutput e then
      addToGroup name (.object [("name", nameOf e), ("ref_field", .ofOption (e.attribute? "REF_FIELD")),
        ("datatype", .ofOption (e.attribute? "DATATYPE"))]) gs
    else gs

def router (e : Element) : Fields :=
  let groups := (e.findAll "GROUP").filterMap group?
  let default := match (groups.filter (·.isDefault)).getLast? with
    | some g => .ofOption g.name
    | none => .null
  [("groups", .list (((fieldElements e).foldl withField groups).map (·.toValue))),
   ("default_group", default)]

/-! ## Filter and source qualifier -/

def filter (e : Element) : Fields :=
  withAttributes [("Filter Condition", "filter_condition", .plain)] e [("filter_condition", .text "")]

def sourceQualifier (e : Element) : Fields :=
  withAttributes
    [("Source Filter", "source_filter", .plain), ("Sql Query", "sql_override", .plain),
     ("User Defined Join", "user_defined_join", .plain)] e
    [("source_filter", .null), ("sql_override", .null), ("user_defined_join", .null)]

/-- The properties of a transformation of the given type. -/
def ofElement (type : String) (e : Element) : Except Fault Fields :=
  match type with
  | "Aggregator" => .ok (aggregator e)
  | "Joiner" => .ok (joiner e)
  | "Filter" => .ok (filter e)
  | "Sorter" => sorter e
  | "Router" => .ok (router e)
  | "Lookup Procedure" => lookup e
  | "Update Strategy" => .ok (updateStrategy e)
  | "Source Qualifier" => .ok (sourceQualifier e)
  | _ => .ok []

end MappingFlow.Properties
