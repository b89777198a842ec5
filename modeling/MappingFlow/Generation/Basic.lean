/-
  MappingFlow.Generation.Basic — a generator: the style of its data flows, the folder it
  writes to and the moment it writes at.

  For one structure it writes three files: the pipeline, the data flow and the report, in
  that order. A file that cannot be made leaves those before it.
-/

import MappingFlow.Generation.Documents
import MappingFlow.Generation.Linked
import MappingFlow.Generation.Scripted

namespace MappingFlow.Generation

inductive Style where
  | scripted (datasets : Dataflow.DatasetNames)
  | linked

structure Generator where
  style : Style
  folder : Path
  moment : Moment

namespace Generator

/-- The folder is made before anything is written. -/
def start (g : Generator) (s : Storage) : Except Fault State := do
  let s ← s.makeFolder g.folder.toText
  return .start s

def pipeline (g : Generator) (name : String) (plan : Value) : Generating String :=
  Generation.pipeline g.folder g.moment name plan

def dataflow (g : Generator) (name : String) (plan : Value) : Generating String :=
  match g.style with
  | .scripted datasets => scriptedDataflow g.folder g.moment datasets name plan
  | .linked => linkedDataflow g.folder g.moment name plan

/-- `total` is the number of transformations of the mapping. -/
def report (g : Generator) (name : String) (plan : Value) (total : Nat) : Generating String :=
  match g.style with
  | .scripted _ => scriptedReport g.folder g.moment name plan total
  | .linked => linkedReport g.folder g.moment name plan total

/-- The paths of the three files. -/
structure Files where
  pipeline : String
  dataflow : String
  report : String

def all (g : Generator) (name : String) (plan : Value) (total : Nat) : Generating Files := do
  let pipeline ← g.pipeline name plan
  let dataflow ← g.dataflow name plan
  let report ← g.report name plan total
  return ⟨pipeline, dataflow, report⟩

def datasetName (g : Generator) (name : Value) (isSource : Bool) : Except Fault Value :=
  match g.style with
  | .scripted datasets => datasets.name name isSource
  | .linked => .ok (.text (Dataflow.plainDataset name isSource))

def connectedSources (g : Generator) (plan : Value) : Except Fault (List Value) :=
  match g.style with
  | .scripted _ => Generation.connectedSources plan false
  | .linked => Generation.connectedSources plan true

def advice (g : Generator) (plan : Value) : Generating (List String) :=
  match g.style with
  | .scripted _ => scriptedAdvice plan
  | .linked => linkedAdvice plan

end Generator

end MappingFlow.Generation
