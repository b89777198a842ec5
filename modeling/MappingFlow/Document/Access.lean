/-
  MappingFlow.Document.Access — taking apart values of unknown shape.

  Each operation says what it needs of a value and fails with the cause if the value is
  of another kind. Going through a text yields its characters and going through an
  object yields its keys; looking for something in a text looks for a part of it.
-/

import MappingFlow.Fault

namespace MappingFlow.Value

/-- The value of a key that has to be there. -/
def field (v : Value) (key : String) : Except Fault Value :=
  match v with
  | .object fs => match Fields.get? fs key with
    | some w => .ok w
    | none => .error (.missingKey key)
  | .list _ => .error (.listIndexed .text)
  | .text _ => .error (.textIndexed .text)
  | v => .error (.notIndexable v.kind)

/-- The value of a key, or another value if it is not there. -/
def fieldD (v : Value) (key : String) (absent : Value) : Except Fault Value :=
  match v with
  | .object fs => .ok (Fields.getD fs key absent)
  | v => .error (.noOperation v.kind "get")

/-- The members of a value, in order. -/
def items : Value → Except Fault (List Value)
  | .list xs => .ok xs
  | .object fs => .ok (fs.map fun f => .text f.1)
  | .text s => .ok (s.toList.map fun c => .text (String.ofList [c]))
  | v => .error (.notIterable v.kind)

/-- The first `n` members of a list, or characters of a text. -/
def leading (n : Nat) : Value → Except Fault (List Value)
  | .list xs => .ok (xs.take n)
  | .text s => .ok ((s.toList.take n).map fun c => .text (String.ofList [c]))
  | v => .error (.notIndexable v.kind)

/-- The fields of an object; `operation` is what was asked of it. -/
def fieldsFor (v : Value) (operation : String) : Except Fault Fields :=
  match v with
  | .object fs => .ok fs
  | v => .error (.noOperation v.kind operation)

/-- The characters of a text; `operation` is what was asked of it. -/
def textFor (v : Value) (operation : String) : Except Fault String :=
  match v with
  | .text s => .ok s
  | v => .error (.noOperation v.kind operation)

def size : Value → Except Fault Nat
  | .list xs => .ok xs.length
  | .object fs => .ok fs.length
  | .text s => .ok s.length
  | v => .error (.noLength v.kind)

/-- Lists and objects cannot be keys or members of a set. -/
def requireHashable (v : Value) : Except Fault Unit :=
  match v with
  | .list _ => .error (.notHashable .list)
  | .object _ => .error (.notHashable .object)
  | _ => .ok ()

/-- Whether `item` is in `v`: a member of a list, a key of an object, a part of a text. -/
def holds (v item : Value) : Except Fault Bool :=
  match v with
  | .list xs => .ok (xs.any item.same)
  | .object fs => do
    item.requireHashable
    match item with
    | .text s => return Fields.contains fs s
    | _ => return false
  | .text s => match item with
    | .text t => .ok (Text.contains t.toList s.toList)
    | item => .error (.textSearched item.kind)
  | v => .error (.notSearchable v.kind)

def holdsKey (v : Value) (key : String) : Except Fault Bool := v.holds (.text key)

def isText (v : Value) (s : String) : Bool :=
  match v with
  | .text t => t == s
  | _ => false

def isOneOf (v : Value) (words : List String) : Bool := words.any v.isText

/-- Whether `v` is among values that were entered in a set. -/
def inSet (v : Value) (members : List Value) : Except Fault Bool := do
  v.requireHashable
  return members.any v.same

/-- The texts of a value joined by a separator. -/
def joinItems (position : Nat) : List Value → Except Fault (List String)
  | [] => .ok []
  | .text s :: rest => do
    let ss ← joinItems (position + 1) rest
    return s :: ss
  | v :: _ => .error (.joinedItem position v.kind)

def joined (separator : String) (v : Value) : Except Fault String :=
  match v.items with
  | .error _ => .error .notJoinable
  | .ok xs => do
    let ss ← joinItems 0 xs
    return separator.intercalate ss

/-- The first of the two that is present. -/
def orElse (v w : Value) : Value := if v.isPresent then v else w

end MappingFlow.Value
