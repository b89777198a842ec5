/-
  MappingFlow.Generation.Statistics — how much of a mapping was converted.

  The rate is a percentage with two places, computed in binary numbers as the quotient
  times a hundred. It is a whole zero when there is nothing to convert.
-/

import MappingFlow.Generation.State

namespace MappingFlow.Generation

structure Statistics where
  total : Int
  converted : Int
  rate : Value
  warnings : Int
  errors : Int

namespace Statistics

/-- Fails if the quotient is larger than any binary number. -/
def rateOf (converted total : Int) : Except Fault Value :=
  if 0 < total then
    match Binary64.ofRatio (converted < 0) converted.natAbs total.natAbs with
    | .infinite _ => .error .tooLargeQuotient
    | q => .ok (.real ((q.timesNat 100).roundPlaces 2))
  else .ok (.int 0)

def compute (total converted warnings errors : Int) : Except Fault Statistics := do
  let rate ← rateOf converted total
  return ⟨total, converted, rate, warnings, errors⟩

def toValue (s : Statistics) (m : Moment) : Value :=
  .object
    [("total_transformations", .int s.total), ("migrated_transformations", .int s.converted),
     ("failed_transformations", .int (s.total - s.converted)), ("success_rate", s.rate),
     ("warnings", .int s.warnings), ("errors", .int s.errors), ("timestamp", .text m.iso)]

end Statistics

end MappingFlow.Generation
