/-
  MappingFlow.Mapping.Basic — a mapping: where data comes from, the steps it goes
  through, where it goes to, and how these are connected.

  A mapping is also written as a document (`Mapping.toValue`), and read back from one in
  which members may be left out (`Mapping.ofValue`).
-/

import MappingFlow.Document.Value

namespace MappingFlow

structure Column where
  name : String
  datatype : String
  precision : Int
  scale : Int
  expression : Option String
  description : Option String

/-- A source or a target. -/
structure Endpoint where
  name : String
  databaseType : String
  tableName : Option String
  columns : List Column
  properties : Fields

structure Transformation where
  name : String
  type : String
  description : Option String
  columns : List Column
  properties : Fields

/-- Data flows from one instance to another; the columns are paired by position. -/
structure Connector where
  source : String
  target : String
  sourceColumns : List String
  targetColumns : List String

structure Mapping where
  name : String
  description : Option String
  version : String
  sources : List Endpoint
  targets : List Endpoint
  transformations : List Transformation
  connectors : List Connector
  properties : Fields

/-! ## As a document -/

def Column.toValue (c : Column) : Value :=
  .object [("name", .text c.name), ("datatype", .text c.datatype), ("precision", .int c.precision),
    ("scale", .int c.scale), ("expression", .ofOption c.expression),
    ("description", .ofOption c.description)]

def Endpoint.toValue (e : Endpoint) : Value :=
  .object [("name", .text e.name), ("database_type", .text e.databaseType),
    ("table_name", .ofOption e.tableName), ("fields", .list (e.columns.map (·.toValue))),
    ("properties", .object e.properties)]

def Transformation.toValue (t : Transformation) : Value :=
  .object [("name", .text t.name), ("type", .text t.type), ("description", .ofOption t.description),
    ("fields", .list (t.columns.map (·.toValue))), ("properties", .object t.properties)]

def Connector.toValue (c : Connector) : Value :=
  .object [("from_instance", .text c.source), ("to_instance", .text c.target),
    ("from_fields", .texts c.sourceColumns), ("to_fields", .texts c.targetColumns)]

def Mapping.toValue (m : Mapping) : Value :=
  .object [("name", .text m.name), ("description", .ofOption m.description), ("version", .text m.version),
    ("sources", .list (m.sources.map (·.toValue))), ("targets", .list (m.targets.map (·.toValue))),
    ("transformations", .list (m.transformations.map (·.toValue))),
    ("connectors", .list (m.connectors.map (·.toValue))), ("properties", .object m.properties)]

/-! ## From a document -/

namespace Value

/-- A member of an object, null if it is not there. -/
def member (v : Value) (key : String) : Value :=
  match v with
  | .object fs => Fields.getD fs key .null
  | _ => .null

def memberList (v : Value) (key : String) : List Value :=
  match v.member key with
  | .list xs => xs
  | _ => []

def memberFields (v : Value) (key : String) : Fields :=
  match v.member key with
  | .object fs => fs
  | _ => []

def memberText? (v : Value) (key : String) : Option String :=
  match v.member key with
  | .text s => some s
  | _ => none

def memberText (v : Value) (key : String) : String := (v.memberText? key).getD ""

def memberInt (v : Value) (key : String) : Int :=
  match v.member key with
  | .int n => n
  | _ => 0

def textItems : List Value → List String
  | [] => []
  | .text s :: rest => s :: textItems rest
  | _ :: rest => textItems rest

end Value

def Column.ofValue (v : Value) : Column :=
  ⟨v.memberText "name", v.memberText "datatype", v.memberInt "precision", v.memberInt "scale",
    v.memberText? "expression", v.memberText? "description"⟩

def Endpoint.ofValue (v : Value) : Endpoint :=
  ⟨v.memberText "name", v.memberText "database_type", v.memberText? "table_name",
    (v.memberList "fields").map .ofValue, v.memberFields "properties"⟩

def Transformation.ofValue (v : Value) : Transformation :=
  ⟨v.memberText "name", v.memberText "type", v.memberText? "description",
    (v.memberList "fields").map .ofValue, v.memberFields "properties"⟩

def Connector.ofValue (v : Value) : Connector :=
  ⟨v.memberText "from_instance", v.memberText "to_instance", Value.textItems (v.memberList "from_fields"),
    Value.textItems (v.memberList "to_fields")⟩

/-- The version of a mapping that does not state one. -/
def standardVersion : String := "10.x"

def Mapping.ofValue (v : Value) : Mapping :=
  { name := v.memberText "name"
    description := v.memberText? "description"
    version := (v.memberText? "version").getD standardVersion
    sources := (v.memberList "sources").map .ofValue
    targets := (v.memberList "targets").map .ofValue
    transformations := (v.memberList "transformations").map .ofValue
    connectors := (v.memberList "connectors").map .ofValue
    properties := v.memberFields "properties" }

end MappingFlow
