/-
  MappingFlow.Web.Package — the archive of a conversion: its documents, its report and a
  text on how to import them.
-/

import MappingFlow.Document.Access
import MappingFlow.Document.Json.Writer

namespace MappingFlow.Web

def instructions : String :=
  "\n".intercalate
   ["# PowerCenter to Azure Data Factory Migration Package",
    "",
    "## Contents",
    "",
    "- **pipeline.json**: Azure Data Factory pipeline definition",
    "- **dataflow.json**: Azure Data Factory data flow definition",
    "- **datasets/**: Dataset definitions for sources and sinks (if any)",
    "- **report.md**: Detailed migration report (Markdown)",
    "",
    "## How to Import to Azure Data Factory",
    "",
    "### Option 1: Using Azure Portal",
    "",
    "1. Open Azure Data Factory Studio",
    "2. Go to \"Author\" tab",
    "3. Click \"+\" → \"Pipeline\" → \"Import from pipeline template\"",
    "4. Upload `pipeline.json`",
    "5. Repeat for data flow using `dataflow.json`",
    "",
    "### Option 2: Using Azure CLI",
    "",
    "```bash",
    "# Set variables",
    "RESOURCE_GROUP=\"your-resource-group\"",
    "FACTORY_NAME=\"your-adf-name\"",
    "",
    "# Import pipeline",
    "az datafactory pipeline create \\",
    "  --resource-group $RESOURCE_GROUP \\",
    "  --factory-name $FACTORY_NAME \\",
    "  --name \"YourPipelineName\" \\",
    "  --pipeline @pipeline.json",
    "",
    "# Import data flow",
    "az datafactory data-flow create \\",
    "  --resource-group $RESOURCE_GROUP \\",
    "  --factory-name $FACTORY_NAME \\",
    "  --name \"YourDataFlowName\" \\",
    "  --data-flow @dataflow.json",
    "```",
    "",
    "### Option 3: Using PowerShell",
    "",
    "```powershell",
    "# Set variables",
    "$ResourceGroup = \"your-resource-group\"",
    "$FactoryName = \"your-adf-name\"",
    "",
    "# Import pipeline",
    "Set-AzDataFactoryV2Pipeline `",
    "  -ResourceGroupName $ResourceGroup `",
    "  -DataFactoryName $FactoryName `",
    "  -Name \"YourPipelineName\" `",
    "  -DefinitionFile \"pipeline.json\"",
    "```",
    "",
    "## Post-Import Checklist",
    "",
    "- [ ] Verify all linked services exist in ADF",
    "- [ ] Update dataset connection strings if needed",
    "- [ ] Test pipeline with sample data",
    "- [ ] Review and adjust integration runtime settings",
    "- [ ] Configure pipeline triggers if needed",
    "- [ ] Set up monitoring and alerts",
    "",
    "## Support",
    "",
    "For issues or questions, refer to the migration report or contact your data engineering team.",
    "",
    "---",
    "Generated by PowerCenter to ADF Migrator v2.5",
    "Developed for Entix SpA | Universidad Tecnológica Metropolitana (UTEM)",
    ""]

/-- A file of the archive, if there is anything to write into it. -/
def documentEntry (name : String) (v : Value) : List (String × String) :=
  if v.isPresent then [(name, Json.write Json.packageStyle v)] else []

def reportEntry (report : Value) : Except Fault (List (String × String)) :=
  if !report.isPresent then .ok []
  else
    match report with
    | .text t => .ok [("report.md", t)]
    | .list _ => .error (.notBytes .list)
    | .object _ => .error (.notBytes .object)
    | v => .error (.noLength v.kind)

/-- The content of a dataset is its own entry of that name, or the whole of it. -/
def datasetEntry (d : Value) : Except Fault (String × String) := do
  let name ← d.fieldD "name" (.text "dataset")
  let content ← d.fieldD "content" d
  let path := ("datasets/" ++ name.display ++ ".json").toList.takeWhile (· != '\x00')
  return (String.ofList path, Json.write Json.packageStyle content)

/-- The names and texts of the files, in their order. -/
def package (pipeline dataflow report datasets : Value) : Except Fault (List (String × String)) := do
  let reports ← reportEntry report
  let contents ← if datasets.isPresent then do
      let items ← datasets.items
      items.mapM datasetEntry
    else .ok []
  return documentEntry "pipeline.json" pipeline ++ documentEntry "dataflow.json" dataflow ++ reports ++ contents
    ++ [("README.md", instructions)]

end MappingFlow.Web
