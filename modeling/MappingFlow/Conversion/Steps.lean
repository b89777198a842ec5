/-
  MappingFlow.Conversion.Steps — each kind of transformation as a step of a data flow.

  A step is a document. Its properties may have any shape; a property that is used in a
  way its shape does not allow stops the conversion, and what was noted before stays
  noted.
-/

import MappingFlow.Conversion.Casing
import MappingFlow.Conversion.Conditions

namespace MappingFlow.Conversion

def property (t : Transformation) (key : String) (absent : Value) : Value := t.properties.getD key absent

/-- The members that every step begins with. -/
def stepHead (t : Transformation) (type : Value) : Fields :=
  [("name", .text t.name), ("type", type), ("description", .ofOption t.description)]

def convertExpression (r : Rules) (v : Value) : Converting String := r.convert v

/-- Casing first, then the expression itself. -/
def convertCondition (r : Rules) (v : Value) : Converting Value := do
  let w ← normalizeCasing v
  let s ← convertExpression r w
  return .text s

/-! ## Derived columns, filters, aggregates -/

/-- A column with an expression; its casing is known from then on. -/
def derivedColumn (r : Rules) (c : Column) : Converting (Option Value) :=
  match c.expression with
  | none => return none
  | some e =>
    if e = "" then return none
    else do
      let v ← convertCondition r (.text e)
      modify fun s => { s with casing := learnCasing c.name s.casing }
      return some (.object [("name", .text c.name), ("expression", v)])

def derivedColumns (r : Rules) : List Column → Converting (List Value)
  | [] => return []
  | c :: rest => do
    let v ← derivedColumn r c
    let vs ← derivedColumns r rest
    return v.toList ++ vs

def deriveStep (r : Rules) (t : Transformation) (type : Value) : Converting Value := do
  let columns ← derivedColumns r t.columns
  return .object (stepHead t type ++ [("columns", .list columns)])

def filterStep (r : Rules) (t : Transformation) (type : Value) : Converting Value := do
  let condition ← convertCondition r (property t "filter_condition" (.text "true"))
  return .object (stepHead t type ++ [("condition", condition)])

def aggregateOf (r : Rules) (v : Value) : Converting Value := do
  let e ← v.field "expression"
  let converted ← convertCondition r e
  let name ← v.field "name"
  return .object [("name", name), ("expression", converted)]

def aggregatesOf (r : Rules) : List Value → Converting (List Value)
  | [] => return []
  | v :: rest => do
    let w ← aggregateOf r v
    let ws ← aggregatesOf r rest
    return w :: ws

def aggregateNames : List String := ["SUM", "AVG", "COUNT", "MIN", "MAX", "FIRST", "LAST"]

def mentionsAggregate (s : String) : Bool :=
  aggregateNames.any fun n => Text.contains n.toList (Text.upper s.toList)

/-- The columns whose expression mentions an aggregate. -/
def aggregateColumns (r : Rules) : List Column → Converting (List Value)
  | [] => return []
  | c :: rest =>
    match c.expression with
    | some e =>
      if e != "" && mentionsAggregate e then do
        let v ← convertCondition r (.text e)
        let vs ← aggregateColumns r rest
        return .object [("name", .text c.name), ("expression", v)] :: vs
      else aggregateColumns r rest
    | none => aggregateColumns r rest

def aggregateStep (r : Rules) (t : Transformation) (type : Value) : Converting Value := do
  let stated ← (property t "aggregate_expressions" (.list [])).items
  let aggregates ← aggregatesOf r stated
  let aggregates ← if aggregates.isEmpty then aggregateColumns r t.columns else pure aggregates
  let step := stepHead t type ++
    [("groupBy", property t "group_by_fields" (.list [])), ("aggregates", .list aggregates)]
  if (property t "sorted_input" (.bool false)).isPresent then
    warn ("Aggregator '" ++ t.name
      ++ "' has Sorted Input enabled. Ensure upstream Sort transformation exists.")
    return .object (step ++ [("sorted_input", .bool true)])
  else return .object step

/-! ## Joins -/

def joinTypes : List (String × String) :=
  [("Normal Join", "inner"), ("Normal", "inner"), ("Master Outer", "left"), ("Detail Outer", "right"),
   ("Full Outer", "outer")]

/-- A value as a key of a table of texts. -/
def choose (table : List (String × String)) (otherwise : String) (v : Value) : Except Fault String := do
  v.requireHashable
  match v with
  | .text s => return (table.lookup s).getD otherwise
  | _ => return otherwise

/-- The two inputs of a join: the first two distinct instances that feed it. Two source
    qualifiers that stand for one source keep their own names. -/
def joinInputs (name : String) : Converting (Option String × Option String) := do
  let s ← get
  let inputs := s.feedsInto name
  match distinct inputs with
  | left :: right :: _ => do
    let l ← resolveFeed left
    let r ← resolveFeed right
    if l = r ∧ left ≠ right then
      reportError ("ERROR CRÍTICO: Joiner '" ++ name ++ "' tiene inputs diferentes (" ++ left ++ " vs "
        ++ right ++ ") pero ambos se resolvieron al mismo stream: '" ++ l
        ++ "'. Esto causará un self-join erróneo.")
      return (some left, some right)
    else return (some l, some r)
  | [left] => do
    let l ← resolveFeed left
    reportError ("ERROR: Joiner '" ++ name ++ "' tiene solo 1 input único conectado: " ++ left
      ++ ". Un Join requiere 2 inputs.")
    return (some l, none)
  | [] => do
    reportError ("ERROR CRÍTICO: Joiner '" ++ name
      ++ "' no tiene inputs únicos conectados. Inputs raw: []")
    return (none, none)

/-- A small master beside a large detail. -/
def suggestsBroadcast (master detail : Value) : Except Fault Bool := do
  let m ← master.size
  if m < 10 then
    let d ← detail.size
    return 20 < d
  else return false

def joinStep (t : Transformation) (type : Value) : Converting Value := do
  let joinType ← choose joinTypes "inner" (property t "join_type" (.text "Normal Join"))
  let conditions ← conditions (property t "join_condition" (.text ""))
  let master := property t "master_fields" (.list [])
  let detail := property t "detail_fields" (.list [])
  let (left, right) ← joinInputs t.name
  let step := stepHead t type ++
    [("joinType", .text joinType), ("joinConditions", conditions), ("masterFields", master),
     ("detailFields", detail), ("leftInput", .ofOption left), ("rightInput", .ofOption right)]
  let step ← if (property t "sorted_input" (.bool false)).isPresent then do
      warn ("Joiner '" ++ t.name ++ "' has Sorted Input enabled. Ensure both inputs are sorted.")
      pure (step ++ [("sorted_input", .bool true)])
    else pure step
  if ← suggestsBroadcast master detail then
    warn ("Joiner '" ++ t.name ++ "': Consider broadcast join for performance (small master table)")
    return .object (step ++ [("broadcast", .text "left")])
  else return .object step

/-! ## Sorts and splits -/

def sortColumn (v : Value) : Except Fault Value := do
  let name ← v.field "name"
  let direction ← v.field "direction"
  return .object [("name", name), ("order", .text (if direction.isText "ASCENDING" then "asc" else "desc"))]

def sortStep (t : Transformation) (type : Value) : Converting Value := do
  let keys ← (property t "sort_keys" (.list [])).items
  let columns ← (keys.mapM sortColumn : Except Fault (List Value))
  if !(property t "case_sensitive" (.bool true)).isPresent then
    warn ("Sorter '" ++ t.name
      ++ "' has case_sensitive=False. ADF Sort is case-sensitive by default.")
  return .object (stepHead t type ++
    [("orderBy", .list columns), ("distinct", property t "distinct" (.bool false))])

/-- An output group with an expression. -/
def splitGroup (r : Rules) (g : Value) : Converting (Option Value) := do
  let type ← g.field "type"
  if type.isText "output" then
    let e ← g.field "expression"
    if e.isPresent then
      let name ← g.field "name"
      let s ← convertExpression r e
      let fields ← g.fieldD "fields" (.list [])
      return some (.object [("name", name), ("expression", .text s), ("fields", fields)])
    else return none
  else return none

def splitGroups (r : Rules) : List Value → Converting (List Value)
  | [] => return []
  | g :: rest => do
    let v ← splitGroup r g
    let vs ← splitGroups r rest
    return v.toList ++ vs

def splitStep (r : Rules) (t : Transformation) (type : Value) : Converting Value := do
  let groups ← (property t "groups" (.list [])).items
  let conditions ← splitGroups r groups
  if conditions.length > 10 then
    warn ("Router '" ++ t.name ++ "' has " ++ toString conditions.length
      ++ " output groups. Consider simplifying.")
  return .object (stepHead t type ++
    [("conditions", .list conditions), ("defaultStream", property t "default_group" .null)])

/-! ## Changes -/

def actions : List (String × String) :=
  [("DD_INSERT", "insert"), ("DD_UPDATE", "update"), ("DD_DELETE", "delete"), ("DD_REJECT", "reject")]

/-- An expression that says more than the strategy itself is a condition. -/
def strategyCondition (r : Rules) (strategy expression : Value) : Converting Fields :=
  if !expression.isPresent then return []
  else do
    let s ← expression.textFor "strip"
    if strategy.isText (trimmed s.toList) then return []
    else
      let c ← convertExpression r expression
      return [("condition", .text c)]

def changeStep (r : Rules) (t : Transformation) (type : Value) : Converting Value := do
  let strategy := property t "strategy" (.text "DD_INSERT")
  let action ← choose actions "insert" strategy
  let condition ← strategyCondition r strategy (property t "strategy_expression" .null)
  if strategy.isText "DD_REJECT" then
    warn ("Update Strategy '" ++ t.name
      ++ "' uses DD_REJECT. Consider using Router instead for error handling.")
  return .object (stepHead t type ++ [("action", .text action)] ++ condition)

end MappingFlow.Conversion
