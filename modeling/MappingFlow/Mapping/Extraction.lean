/-
  MappingFlow.Mapping.Extraction — a mapping from its document.

  Sources, targets, transformations and connectors are found at any depth below the
  root, in document order. The name is that of the first mapping element. A number that
  does not read as one stops the extraction.
-/

import MappingFlow.Mapping.Basic
import MappingFlow.Mapping.Properties
import MappingFlow.Markup.Reader

namespace MappingFlow

open Markup

namespace Extraction

def column (e : Element) : Except Fault Column := do
  let precision ← Properties.integerAt e "PRECISION"
  let scale ← Properties.integerAt e "SCALE"
  return ⟨e.attributeD "NAME" "", e.attributeD "DATATYPE" "string", precision, scale,
    e.attribute? "EXPRESSION", e.attribute? "DESCRIPTION"⟩

def columns (e : Element) : Except Fault (List Column) := (Properties.fieldElements e).mapM column

def endpoint (e : Element) : Except Fault Endpoint := do
  let cs ← columns e
  return ⟨e.attributeD "NAME" "", e.attributeD "DATABASETYPE" "Unknown", e.attribute? "TABLENAME", cs, []⟩

def transformation (e : Element) : Except Fault Transformation := do
  let type := e.attributeD "TYPE" ""
  let cs ← columns e
  let properties ← Properties.ofElement type e
  return ⟨e.attributeD "NAME" "", type, e.attribute? "DESCRIPTION", cs, properties⟩

def connector (e : Element) : Connector :=
  let pairs := e.findAll "FIELDMAP"
  ⟨e.attributeD "FROMINSTANCE" "", e.attributeD "TOINSTANCE" "",
    pairs.map (·.attributeD "FROMFIELD" ""), pairs.map (·.attributeD "TOFIELD" "")⟩

def unknownName : String := "UnknownMapping"

def mappingName (root : Element) : String :=
  match root.find? "MAPPING" with
  | some e => e.attributeD "NAME" unknownName
  | none => unknownName

end Extraction

namespace Mapping

def ofElement (root : Element) : Except Fault Mapping := do
  let sources ← (root.findAll "SOURCE").mapM Extraction.endpoint
  let targets ← (root.findAll "TARGET").mapM Extraction.endpoint
  let transformations ← (root.findAll "TRANSFORMATION").mapM Extraction.transformation
  return ⟨Extraction.mappingName root, none, standardVersion, sources, targets, transformations,
    (root.findAll "CONNECTOR").map Extraction.connector, []⟩

/-- The mapping of a stored document. -/
def ofBytes (bytes : Encoding.Bytes) : Except Fault Mapping :=
  match read? (some depthLimit) bytes with
  | none => .error .malformedMarkup
  | some root => ofElement root

end Mapping

end MappingFlow
