import MappingFlow.Dataflow.Name
import MappingFlow.Document.Schema
import MappingFlow.Main
import MappingFlow.Proofs.Conversion.Conditions
import MappingFlow.Proofs.Conversion.Leftovers
import MappingFlow.Proofs.Conversion.Qualified
import MappingFlow.Proofs.Conversion.Recorded
import MappingFlow.Proofs.Conversion.Sides
import MappingFlow.Proofs.Conversion.Unsupported
import MappingFlow.Proofs.Dataflow.Comparisons
import MappingFlow.Proofs.Dataflow.FunctionNames
import MappingFlow.Proofs.Dataflow.NamedSteps
import MappingFlow.Proofs.Dataflow.Qualifying
import MappingFlow.Proofs.Dataflow.Supply
import MappingFlow.Proofs.Expression.Chains
import MappingFlow.Proofs.Expression.Comparing
import MappingFlow.Proofs.Expression.Nesting
import MappingFlow.Proofs.Generation.Canonical
import MappingFlow.Proofs.Generation.Columns
import MappingFlow.Proofs.Generation.Connections
import MappingFlow.Proofs.Generation.Linked
import MappingFlow.Proofs.Generation.StreamNames
import MappingFlow.Proofs.Mapping.Rearranged
import MappingFlow.Proofs.Mapping.Stated
import MappingFlow.Proofs.ReviewGate
import MappingFlow.Proofs.Web.Batch
import MappingFlow.Proofs.Web.Coherence
import MappingFlow.Proofs.Web.Displayable
