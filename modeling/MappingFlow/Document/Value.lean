/-
  MappingFlow.Document.Value — values of a document: null, truth values, numbers, texts,
  lists and objects.

  The fields of an object keep the order in which they were entered; entering a key
  again replaces its value and keeps its place (`Fields.insert`). `Value.same` is
  equality of content: numbers are compared as numbers, truth values count as 0 and 1,
  and the order of fields does not matter.
-/

import MappingFlow.Decimal.Binary64

namespace MappingFlow

inductive Value where
  | null
  | bool (b : Bool)
  | int (n : Int)
  | real (x : Binary64)
  | text (s : String)
  | list (items : List Value)
  | object (fields : List (String × Value))
  deriving Inhabited

abbrev Fields := List (String × Value)

namespace Fields

def get? (fs : Fields) (key : String) : Option Value := fs.lookup key

def getD (fs : Fields) (key : String) (absent : Value) : Value := (fs.get? key).getD absent

def contains (fs : Fields) (key : String) : Bool := (fs.get? key).isSome

def insert (fs : Fields) (key : String) (v : Value) : Fields :=
  match fs with
  | [] => [(key, v)]
  | f :: rest => if f.1 == key then (key, v) :: rest else f :: insert rest key v

def erase (fs : Fields) (key : String) : Fields := fs.filter fun f => f.1 != key

def keys (fs : Fields) : List String := fs.map (·.1)

/-- All fields of the second entered into the first. -/
def update (fs gs : Fields) : Fields := gs.foldl (fun fs g => fs.insert g.1 g.2) fs

end Fields

namespace Value

inductive Kind where
  | null
  | bool
  | int
  | real
  | text
  | list
  | object
  deriving DecidableEq

def kind : Value → Kind
  | .null => .null
  | .bool _ => .bool
  | .int _ => .int
  | .real _ => .real
  | .text _ => .text
  | .list _ => .list
  | .object _ => .object

/-- The word for a kind of value in messages. -/
def Kind.word : Kind → String
  | .null => "NoneType"
  | .bool => "bool"
  | .int => "int"
  | .real => "float"
  | .text => "str"
  | .list => "list"
  | .object => "dict"

/-- Null, false, zero and everything empty count as absent. -/
def isPresent : Value → Bool
  | .null => false
  | .bool b => b
  | .int n => n != 0
  | .real x => !x.isZero
  | .text s => s != ""
  | .list xs => !xs.isEmpty
  | .object fs => !fs.isEmpty

def boolInt (b : Bool) : Int := if b then 1 else 0

/-- Numbers and truth values by the number they stand for. -/
def sameNumber : Value → Value → Bool
  | .int m, .int n => m == n
  | .int m, .bool b => m == boolInt b
  | .bool a, .int n => boolInt a == n
  | .bool a, .bool b => a == b
  | .real x, .real y => x.same y
  | .real x, .int n => x.toInt? == some n
  | .int n, .real x => x.toInt? == some n
  | .real x, .bool b => x.toInt? == some (boolInt b)
  | .bool b, .real x => x.toInt? == some (boolInt b)
  | _, _ => false

mutual

def same : Value → Value → Bool
  | .null, w => match w with
    | .null => true
    | _ => false
  | .text s, w => match w with
    | .text t => s == t
    | _ => false
  | .list xs, w => match w with
    | .list ys => sameList xs ys
    | _ => false
  | .object fs, w => match w with
    | .object gs => fs.length == gs.length && coversFields fs gs
    | _ => false
  | .bool b, w => sameNumber (.bool b) w
  | .int n, w => sameNumber (.int n) w
  | .real x, w => sameNumber (.real x) w
termination_by structural v => v

def sameList : List Value → List Value → Bool
  | [], ys => ys.isEmpty
  | x :: xs, ys => match ys with
    | [] => false
    | y :: ys => same x y && sameList xs ys
termination_by structural xs => xs

def coversFields : List (String × Value) → List (String × Value) → Bool
  | [], _ => true
  | f :: rest, gs => coversField f gs && coversFields rest gs
termination_by structural fs => fs

def coversField : String × Value → List (String × Value) → Bool
  | (key, v), gs => match gs.lookup key with
    | some w => same v w
    | none => false
termination_by structural f => f

end

/-- Texts as a list. -/
def texts (ts : List String) : Value := .list (ts.map .text)

def ofOption (t : Option String) : Value :=
  match t with
  | some s => .text s
  | none => .null

end Value

end MappingFlow
