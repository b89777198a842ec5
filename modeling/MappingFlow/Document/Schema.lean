/-
  MappingFlow.Document.Schema — schemas of documents, themselves written as documents.

  A schema is a truth value or an object. The members it may use here are `type`,
  `required`, `properties`, `items`, `enum` and `minimum`; others are ignored.
  `Schema.isWellFormed` says whether a value is a schema, and `Schema.accepts` whether a
  document fits one.
-/

import MappingFlow.Document.Value

namespace MappingFlow.Schema

def typeNames : List String := ["array", "boolean", "integer", "null", "number", "object", "string"]

def isTypeName : Value → Bool
  | .text s => typeNames.contains s
  | _ => false

def isText : Value → Bool
  | .text _ => true
  | _ => false

def isNumber : Value → Bool
  | .int _ => true
  | .real _ => true
  | _ => false

def areDistinct : List Value → Bool
  | [] => true
  | v :: rest => !rest.any v.same && areDistinct rest

/-! ## Well-formed schemas -/

mutual

def isWellFormed : Value → Bool
  | .bool _ => true
  | .object fs => areWellFormed fs
  | _ => false
termination_by structural v => v

/-- The members of a schema. -/
def areWellFormed : List (String × Value) → Bool
  | [] => true
  | f :: rest => memberWellFormed f && areWellFormed rest
termination_by structural fs => fs

def memberWellFormed : String × Value → Bool
  | (key, v) => keywordWellFormed key v
termination_by structural f => f

def keywordWellFormed (key : String) : Value → Bool
  | .text s => key != "items" && key != "properties" && key != "required" && key != "enum" && key != "minimum"
      && (key != "type" || typeNames.contains s)
  | .list xs =>
    if key = "type" then !xs.isEmpty && xs.all isTypeName && areDistinct xs
    else if key = "required" then xs.all isText && areDistinct xs
    else key != "items" && key != "properties" && key != "minimum"
  | .object fs =>
    if key = "properties" then valuesWellFormed fs
    else if key = "items" then areWellFormed fs
    else ! (["type", "required", "enum", "minimum"].contains key)
  | .bool _ => ! (["type", "required", "enum", "minimum", "properties"].contains key)
  | .int _ => ! (["type", "required", "enum", "properties", "items"].contains key)
  | .real _ => ! (["type", "required", "enum", "properties", "items"].contains key)
  | .null => ! (["type", "required", "enum", "minimum", "properties", "items"].contains key)
termination_by structural v => v

/-- Every value is a schema. -/
def valuesWellFormed : List (String × Value) → Bool
  | [] => true
  | f :: rest => valueWellFormed f && valuesWellFormed rest
termination_by structural fs => fs

def valueWellFormed : String × Value → Bool
  | (_, v) => isWellFormed v
termination_by structural f => f

end

/-! ## Fitting a schema -/

/-- A number with no fraction is an integer, however it is written. -/
def hasType (v : Value) (name : String) : Bool :=
  match v, name with
  | .list _, "array" => true
  | .bool _, "boolean" => true
  | .int _, "integer" => true
  | .real x, "integer" => x.toInt?.isSome
  | .null, "null" => true
  | .int _, "number" => true
  | .real _, "number" => true
  | .object _, "object" => true
  | .text _, "string" => true
  | _, _ => false

def hasTypeOf (v : Value) : Value → Bool
  | .text name => hasType v name
  | .list names => names.any fun n => match n with
    | .text name => hasType v name
    | _ => false
  | _ => true

/-- A truth value is not a number here. -/
def equals (v w : Value) : Bool := v.same w && (v.kind == .bool) == (w.kind == .bool)

def isBelow : Value → Value → Bool
  | .int m, .int n => m < n
  | .int m, .real y => (Binary64.ofInt m).lessThan y
  | .real x, .int n => x.lessThan (.ofInt n)
  | .real x, .real y => x.lessThan y
  | _, _ => false

def hasKeys (v : Value) (keys : List Value) : Bool :=
  match v with
  | .object fs => keys.all fun k => match k with
    | .text s => Fields.contains fs s
    | _ => true
  | _ => true

mutual

def accepts : Value → Value → Bool
  | .bool b, _ => b
  | .object fs, v => allAccept fs v
  | _, _ => true
termination_by structural s => s

def allAccept : List (String × Value) → Value → Bool
  | [], _ => true
  | f :: rest, v => memberAccepts f v && allAccept rest v
termination_by structural fs => fs

def memberAccepts : String × Value → Value → Bool
  | (key, s), v => keywordAccepts s key v
termination_by structural f => f

def keywordAccepts : Value → String → Value → Bool
  | .object fs, key, v =>
    if key = "properties" then
      match v with
      | .object members => propertiesAccept fs members
      | _ => true
    else if key = "items" then
      match v with
      | .list items => items.all fun x => allAccept fs x
      | _ => true
    else true
  | .list xs, key, v =>
    if key = "type" then hasTypeOf v (.list xs)
    else if key = "required" then hasKeys v xs
    else if key = "enum" then xs.any (equals v)
    else true
  | .text s, key, v => key != "type" || hasType v s
  | .bool b, key, v =>
    if key = "items" then
      match v with
      | .list items => b || items.isEmpty
      | _ => true
    else true
  | .int n, key, v => key != "minimum" || !isBelow v (.int n)
  | .real x, key, v => key != "minimum" || !isBelow v (.real x)
  | .null, _, _ => true
termination_by structural s => s

/-- Every member that has a schema fits it. -/
def propertiesAccept : List (String × Value) → Fields → Bool
  | [], _ => true
  | f :: rest, members => propertyAccepts f members && propertiesAccept rest members
termination_by structural fs => fs

def propertyAccepts : String × Value → Fields → Bool
  | (key, s), members => match Fields.get? members key with
    | some v => accepts s v
    | none => true
termination_by structural f => f

end

/-- A schema that says nothing is not applied. -/
def check (schema v : Value) : Bool := !schema.isPresent || (isWellFormed schema && accepts schema v)

end MappingFlow.Schema
