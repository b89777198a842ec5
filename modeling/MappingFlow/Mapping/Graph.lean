/-
  MappingFlow.Mapping.Graph — the directed graph of the connectors.

  A search for a cycle follows the edges, deeper first. It keeps the instances that it has
  entered, and on the way down the path that it has come. An edge back to the path closes
  a cycle and ends the search; an instance that was entered and left again is not entered
  a second time.
-/

import MappingFlow.Mapping.Basic

namespace MappingFlow.Graph

abbrev Edges := List (String × String)

def ofConnectors (cs : List Connector) : Edges := cs.map fun c => (c.source, c.target)

/-- The instances that an edge begins or ends at. -/
def touched (es : Edges) : List String := es.map (·.1) ++ es.map (·.2)

/-- Where the edges from an instance lead, in order. -/
def targets (es : Edges) (x : String) : List String := (es.filter (·.1 == x)).map (·.2)

/-- What a search has come to. -/
inductive Outcome where
  | cyclic
  /-- No cycle was found, and these instances have been entered. -/
  | clear (entered : List String)
  /-- There was more to enter than the depth allowed. -/
  | tooDeep
  deriving DecidableEq

/-- One instance after the other, until a visit is not clear. -/
def visitAll (visit : List String → String → Outcome) (entered : List String) : List String → Outcome
  | [] => .clear entered
  | x :: xs =>
    match visit entered x with
    | .clear entered' => visitAll visit entered' xs
    | o => o

def visit (es : Edges) (depth : Nat) (path entered : List String) (x : String) : Outcome :=
  if path.contains x then .cyclic
  else if entered.contains x then .clear entered
  else
    match depth with
    | 0 => .tooDeep
    | k + 1 => visitAll (visit es k (x :: path)) (x :: entered) (targets es x)

/-- No path is longer than there are instances, so this depth will do. -/
def search (es : Edges) : Outcome := visitAll (visit es (touched es).length []) [] (es.map (·.1))

def hasCycle (es : Edges) : Bool := search es = .cyclic

end MappingFlow.Graph
