/-
  MappingFlow.Dataflow.Name — names that a resource of the factory may have.
-/

import MappingFlow.Text.Letter

namespace MappingFlow.Dataflow

def isNameChar (c : Char) : Bool := Text.isAlphanumeric c || c == '_' || c == '-'

/-- Blanks become low lines; what a name may not hold is left out. -/
def resourceName (name : String) : String :=
  String.ofList ((name.toList.map fun c => if c == ' ' then '_' else c).filter isNameChar)

end MappingFlow.Dataflow
