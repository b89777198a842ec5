/-
  MappingFlow.Generation.Sources — the sources a data flow begins with.

  Sources of a structure that has neither steps nor sinks lead nowhere and are left out
  with a warning. A source that occurs twice stops the generation.
-/

import MappingFlow.Generation.State

namespace MappingFlow.Generation

/-- The member of a structure that is a list if it is left out. -/
def part (plan : Value) (key : String) : Except Fault Value := plan.fieldD key (.list [])

def hashedName (s : Value) : Except Fault Value := do
  let name ← s.field "name"
  name.requireHashable
  return name

/-- The names of the sources that lead somewhere. `andSteps` asks every step for a
    name, too. -/
def connectedSources (plan : Value) (andSteps : Bool) : Except Fault (List Value) := do
  let sources ← part plan "sources"
  let sources ← sources.items
  let names ← sources.mapM hashedName
  let steps ← part plan "transformations"
  let sinks ← part plan "sinks"
  if !steps.isPresent && !sinks.isPresent then return []
  else
    if andSteps then
      let steps ← steps.items
      let _ ← steps.mapM hashedName
    return names

def orphanWarning (name : Value) : String :=
  "Source huérfano detectado: '" ++ name.display
    ++ "' no tiene conexiones válidas en el flujo. Se omitirá del dataflow."

/-- What `use` makes of each source that is kept, with its name. -/
def eachSource (connected : List Value) (use : Value → Value → Generating α) (seen : List Value) :
    List Value → Generating (List (Value × α))
  | [] => return []
  | s :: rest => do
    let name ← s.field "name"
    if seen.any name.same then
      let fault := Fault.duplicateSource name
      reportError fault.message
      throw fault
    else if !connected.any name.same then
      warn (orphanWarning name)
      eachSource connected use seen rest
    else
      let a ← use s name
      let as ← eachSource connected use (seen ++ [name]) rest
      return (name, a) :: as

/-- Types that stand for a source and are no steps. -/
def sourceTypes : List String := ["Source Qualifier", "source", "Source"]

end MappingFlow.Generation
