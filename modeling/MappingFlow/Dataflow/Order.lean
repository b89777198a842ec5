/-
  MappingFlow.Dataflow.Order — the order in which steps are written.

  A step is ready when every step it reads from has been written. Of the ready steps the
  one with the least name is written next (`arrange`). If at some point no step is
  ready, or if two steps share a name, there is no such order.
-/

import MappingFlow.Document.Access

namespace MappingFlow.Dataflow.Order

/-- A step, its name, and the names it reads from. The order does not look at the step itself. -/
structure Node (α : Type) where
  name : Value
  needs : List Value
  step : α

def isIn (v : Value) (vs : List Value) : Bool := vs.any v.same

/-! ## From documents -/

def needOf (step : Value) (key : String) : Except Fault (List Value) := do
  if ← step.holdsKey key then
    let v ← step.field key
    if v.isPresent then
      v.requireHashable
      return [v]
    else return []
  else return []

def nodeOf (step : Value) : Except Fault (Node Value) := do
  let name ← step.field "name"
  let main ← needOf step "mainInput"
  let left ← needOf step "leftInput"
  let right ← needOf step "rightInput"
  return ⟨name, main ++ left ++ right, step⟩

def requireName (step : Value) : Except Fault Unit := do
  let name ← step.field "name"
  name.requireHashable

/-! ## Comparing names -/

def number? : Value → Option Binary64
  | .int n => some (.ofInt n)
  | .bool b => some (.ofInt (Value.boolInt b))
  | .real x => some x
  | _ => none

/-- Texts by their characters, numbers by their size. -/
def before : Value → Value → Bool
  | .text s, .text t => s < t
  | v, w => match number? v, number? w with
    | some x, some y => x.lessThan y
    | _, _ => false

def areComparable (v w : Value) : Bool :=
  (v.kind == .text && w.kind == .text) || ((number? v).isSome && (number? w).isSome)

/-- Names of different kinds cannot be compared; the first that differs from the one
    before it is refused. -/
def requireComparable : List Value → Except Fault Unit
  | v :: w :: rest =>
    if areComparable v w then requireComparable (w :: rest) else .error (.notComparable w.kind v.kind)
  | _ => .ok ()

/-! ## Arranging -/

/-- Names outside the list do not hold a step back. -/
def isReady (all written : List Value) (n : Node α) : Bool :=
  n.needs.all fun d => !isIn d all || isIn d written

/-- The node with the least name; of equal ones the first. -/
def least (n : Node α) : List (Node α) → Node α
  | [] => n
  | m :: rest => if before m.name n.name then least m rest else least n rest

def hasName (name : Value) (n : Node α) : Bool := n.name.same name

/-- `written` are the names already written, and `waiting` the steps that are not.
    Answers none when no step is ready. -/
def arrangeFrom (fuel : Nat) (all written : List Value) (waiting : List (Node α)) :
    Except Fault (Option (List (Node α))) :=
  match fuel with
  | 0 => .ok (if waiting.isEmpty then some [] else none)
  | k + 1 =>
    match waiting.filter (isReady all written) with
    | [] => .ok (if waiting.isEmpty then some [] else none)
    | n :: rest => do
      requireComparable ((n :: rest).map (·.name))
      let next := least n rest
      let tail ← arrangeFrom k all (written ++ [next.name]) (waiting.filter (!hasName next.name ·))
      return tail.map (next :: ·)

def areDistinct : List Value → Bool
  | [] => true
  | v :: rest => !isIn v rest && areDistinct rest

def arrange (ns : List (Node α)) : Except Fault (Option (List (Node α))) :=
  let names := ns.map (·.name)
  if areDistinct names then arrangeFrom ns.length names [] ns else .ok none

/-- The steps in order, and whether there is one; without it they stay as they are. -/
def sortSteps (steps : List Value) : Except Fault (List Value × Bool) := do
  steps.forM requireName
  let nodes ← steps.mapM nodeOf
  match ← arrange nodes with
  | some ordered => return (ordered.map (·.step), true)
  | none => return (steps, false)

end MappingFlow.Dataflow.Order
