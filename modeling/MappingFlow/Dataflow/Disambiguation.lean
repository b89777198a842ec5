/-
  MappingFlow.Dataflow.Disambiguation — columns that a lookup gave another name.

  Every lookup before a step may qualify columns. In an expression of the step each
  whole word that is such a column, and does not follow `@`, is replaced by its
  qualified name; longer names go first, and a later lookup wins.
-/

import MappingFlow.Document.Access

namespace MappingFlow.Dataflow

open Pattern

/-- A pair of a list that stands for a field. -/
def pairAt (position : Nat) (v : Value) : Except Fault (String × Value) :=
  match v.items with
  | .error _ => .error (.badPair position)
  | .ok [key, w] => do
    key.requireHashable
    match key with
    | .text s => return (s, w)
    | key => .error (.noLength key.kind)
  | .ok items => .error (.pairLength position items.length)

def pairsFrom (position : Nat) : List Value → Except Fault Fields
  | [] => .ok []
  | v :: rest => do
    let p ← pairAt position v
    let ps ← pairsFrom (position + 1) rest
    return p :: ps

/-- The fields of an object, or of a list of pairs. -/
def fieldsOf (v : Value) : Except Fault Fields :=
  match v with
  | .object fs => .ok fs
  | v => do
    let items ← v.items
    pairsFrom 0 items

/-- What the lookups among the steps call their columns. -/
def qualifications (known : Fields) : List Value → Except Fault Fields
  | [] => .ok known
  | step :: rest => do
    let type ← step.fieldD "type" .null
    if type.isText "Lookup" then
      let v ← step.fieldD "columnDisambiguation" (.object [])
      let fs ← fieldsOf v
      let _ ← step.field "name"
      qualifications (Fields.update known fs) rest
    else qualifications known rest

/-- Before the first shorter key. -/
def insertByLength (f : String × Value) : Fields → Fields
  | [] => [f]
  | g :: rest => if g.1.length < f.1.length then f :: g :: rest else g :: insertByLength f rest

/-- Longer keys first; keys of one length stay in order. -/
def longestFirst (fs : Fields) : Fields := fs.foldl (fun sorted f => insertByLength f sorted) []

def columnPattern (name : String) : Pattern :=
  all [notAfter (· == '@'), wordEdge, literal name.toList, wordEdge]

def qualifyColumn (v : Value) (f : String × Value) : Except Fault Value :=
  match v with
  | .text s =>
    if (columnPattern f.1).occursIn s.toList then
      match f.2 with
      | .text q => match Template.read 0 q.toList with
        | .ok t => .ok (.text (String.ofList ((columnPattern f.1).substitute t s.toList)))
        | .error e => .error (.template e)
      | w => .error (.badReplacement w.kind)
    else .ok v
  | v => .error (.notMatchable v.kind)

/-- An expression as it reads after the given steps. -/
def disambiguate (steps : List Value) (v : Value) : Except Fault Value := do
  let fs ← qualifications [] steps
  (longestFirst fs).foldlM qualifyColumn v

end MappingFlow.Dataflow
