/-
  MappingFlow.Expression.Rounds — a step repeated while it applies, a bounded number of
  times.
-/

namespace MappingFlow.Expression

/-- Takes a step at most `rounds` times; a step that does not apply ends the work. -/
def repeatStep (step : List Char → Option (List Char)) : Nat → List Char → List Char
  | 0, t => t
  | rounds + 1, t =>
    match step t with
    | some t' => repeatStep step rounds t'
    | none => t

end MappingFlow.Expression
