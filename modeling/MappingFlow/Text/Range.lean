/-
  MappingFlow.Text.Range — sets of code points as closed ranges in ascending order.

  The long tables give a range by how far it starts after the end of the one before it and
  how far it reaches from there.
-/

namespace MappingFlow.Text

/-- The ranges after `n`, of alternating distances and lengths. -/
def rangesFrom (n : Nat) : List Nat → List (Nat × Nat)
  | gap :: span :: rest => (n + gap, n + gap + span) :: rangesFrom (n + gap + span) rest
  | _ => []

def inRanges (ranges : List (Nat × Nat)) (n : Nat) : Bool :=
  ranges.any fun r => r.1 ≤ n && n ≤ r.2

end MappingFlow.Text
