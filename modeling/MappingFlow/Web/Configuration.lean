/-
  MappingFlow.Web.Configuration — the settings of a conversion and the page that edits
  them.

  The settings are an entry of the session, and every field of the page keeps what the
  visitor gives it at once. They start as those of the file `config.yaml`, if that can be
  read, or as `standardSettings`.
-/

import MappingFlow.Document.Yaml.Reader
import MappingFlow.Document.Yaml.Writer
import MappingFlow.Web.Page

namespace MappingFlow.Web

/-! ## Settings in files -/

def configFile : String := "config.yaml"

/-- The settings that a document holds, if it holds any. -/
def settingsOf (document : Value) : Except Fault (Option Value) := do
  if !document.isPresent then return none
  let held ← document.holdsKey "migration"
  if held then
    let v ← document.field "migration"
    return some v
  else return none

/-- The settings of a file; nothing if there are none or it cannot be read. -/
def readSettings (s : Storage) (path : String) : Option Value :=
  match s.readText path with
  | .error _ => none
  | .ok t =>
    match Yaml.read t.toList with
    | none => none
    | some document =>
      match settingsOf document with
      | .ok found => found
      | .error _ => none

/-- The settings that belong to a mapping of this name. -/
def standardSettings (name : String) : Fields :=
  [("pipeline_name", .text ("pl_" ++ name)), ("dataflow_name", .text ("df_" ++ name)),
   ("dataset_prefix", .text "ds_"), ("pipeline_folder", .text "Migrations"),
   ("oracle_linked_service", .text "ls_Oracle_OnPrem"), ("sql_linked_service", .text "ls_AzureSQL_Database"),
   ("blob_linked_service", .text "ls_AzureBlob_Storage"),
   ("integration_runtime", .text "AutoResolveIntegrationRuntime"), ("enable_logging", .bool true),
   ("enable_error_handling", .bool true), ("enable_staging", .bool false),
   ("enable_partitioning", .bool false), ("max_parallelism", .int 4),
   ("data_flow_compute", .text "General Purpose"),
   ("source_dataset_pattern", .text "\x7bprefix\x7d\x7bsource_name\x7d"),
   ("target_dataset_pattern", .text "\x7bprefix\x7d\x7btarget_name\x7d"),
   ("transformation_prefix", .text ""), ("use_original_names", .bool true)]

/-- The name of the chosen mapping. -/
def mappingName (s : Session) : String := (s.getD .name (.text "mapping")).display

def defaultSettings (s : Session) (files : Storage) : Value :=
  (readSettings files configFile).getD (.object (standardSettings (mappingName s)))

def loadDefaults : Page Value := do
  let s ← get
  return defaultSettings s.session s.storage

/-- Writes the settings to a file; answers whether that was possible. -/
def saveSettings (settings : Value) (path : String) : Page Bool := do
  let s ← get
  match s.storage.writeText path (Yaml.write (.object [("migration", settings)])) with
  | .ok storage =>
    set { s with storage := storage }
    return true
  | .error f =>
    showError ("Error saving config: " ++ f.message)
    return false

/-! ## The page -/

/-- The setting as it is. -/
def setting (name : String) (absent : Value) : Page Value := do
  let settings ← require .config
  settings.fieldD name absent

def keepSetting (name : String) (v : Value) : Page Unit := do
  match ← require .config with
  | .object fs => setSlot .config (.object (Fields.insert fs name v))
  | other => throw (.fault (.noOperation other.kind "__setitem__"))

/-- A setting that is a text. -/
def textSetting (name field label hint : String) (absent : String) : Page Unit := do
  let value ← setting name (.text absent)
  let v ← textInput field label hint value
  keepSetting name v

def flagSetting (name field label hint : String) (absent : Bool) : Page Unit := do
  let value ← setting name (.bool absent)
  let v ← checkbox field label hint value
  keepSetting name v

def pipelineSettings : Page Unit := do
  subheader "🔷 Pipeline Settings"
  columns 2
  let name := mappingName (← session)
  inColumn 0 do
    textSetting "pipeline_name" "pipeline_name_input" "Pipeline Name"
      "Name for the Azure Data Factory pipeline" ("pl_" ++ name)
    textSetting "dataflow_name" "dataflow_name_input" "Data Flow Name" "Name for the ADF data flow"
      ("df_" ++ name)
  inColumn 1 do
    textSetting "dataset_prefix" "dataset_prefix_input" "Dataset Prefix"
      "Prefix for all generated datasets" "ds_"
    textSetting "pipeline_folder" "pipeline_folder_input" "Pipeline Folder"
      "Folder name in ADF to organize pipelines" "Migrations"
  rule

def runtimes : List Value :=
  [.text "AutoResolveIntegrationRuntime", .text "IR-OnPrem", .text "IR-Azure-Custom",
   .text "IR-SHIR-OnPremises"]

def connectionSettings : Page Unit := do
  subheader "🔷 Connection Settings"
  columns 2
  inColumn 0 do
    textSetting "oracle_linked_service" "oracle_ls_input" "Oracle Linked Service"
      "Name of Oracle linked service in ADF" "ls_Oracle_OnPrem"
    textSetting "sql_linked_service" "sql_ls_input" "Azure SQL Linked Service"
      "Name of Azure SQL Database linked service" "ls_AzureSQL_Database"
  inColumn 1 do
    textSetting "blob_linked_service" "blob_ls_input" "Blob Storage Linked Service"
      "Name of Azure Blob Storage linked service" "ls_AzureBlob_Storage"
    let v ← selectBox "ir_select" "Integration Runtime" runtimes 0
      [help "Integration runtime for pipeline execution"]
    keepSetting "integration_runtime" v
  rule

def computeTypes : List Value :=
  [.text "General Purpose", .text "Memory Optimized", .text "Compute Optimized"]

/-- The position of a value among others. -/
def positionOf (v : Value) (vs : List Value) : Except Fault Nat :=
  match vs.findIdx? (fun w => w.same v) with
  | some n => .ok n
  | none => .error (.notInList v)

def parallelism : Page Unit := do
  let value ← setting "max_parallelism" (.int 4)
  draw "slider" [Value.text "Max Parallelism"]
    [("min_value", Value.int 1), ("max_value", Value.int 20), ("value", value),
     help "Maximum parallel activities in pipeline", key "parallelism_slider"]
  let v ← choice "parallelism_slider" value
  keepSetting "max_parallelism" v

def computeType : Page Unit := do
  let value ← setting "data_flow_compute" (.text "General Purpose")
  let index ← positionOf value computeTypes
  let v ← selectBox "compute_select" "Data Flow Compute" computeTypes index
    [help "Compute type for data flow execution"]
  keepSetting "data_flow_compute" v

def advancedSettings : Page Unit := do
  subheader "🔷 Advanced Settings"
  columns 3
  inColumn 0 do
    flagSetting "enable_logging" "logging_check" "Enable detailed logging"
      "Add logging activities to pipeline" true
    flagSetting "enable_error_handling" "error_check" "Enable error outputs"
      "Create error output datasets for failed rows" true
  inColumn 1 do
    flagSetting "enable_staging" "staging_check" "Enable staging"
      "Use staging blob storage for large data transfers" false
    flagSetting "enable_partitioning" "partition_check" "Enable partitioning"
      "Partition large datasets for parallel processing" false
  inColumn 2 do
    parallelism
    computeType
  rule

def namingSettings : Page Unit := do
  inExpander "🔧 Naming Conventions (Optional)" [("expanded", Value.bool false)] do
    markdown "Define custom naming patterns for generated objects"
    columns 2
    inColumn 0 do
      textSetting "source_dataset_pattern" "source_pattern" "Source Dataset Pattern"
        "Use \x7bprefix\x7d, \x7bsource_name\x7d, \x7bschema\x7d" "\x7bprefix\x7d\x7bsource_name\x7d"
      textSetting "target_dataset_pattern" "target_pattern" "Target Dataset Pattern"
        "Use \x7bprefix\x7d, \x7btarget_name\x7d, \x7bschema\x7d" "\x7bprefix\x7d\x7btarget_name\x7d"
    inColumn 1 do
      textSetting "transformation_prefix" "transform_prefix" "Transformation Prefix"
        "Prefix for all transformation names" ""
      flagSetting "use_original_names" "original_names_check" "Preserve original names"
        "Keep original PowerCenter names when possible" true
  rule

def settingsButtons : Page Unit := do
  columnsOf [1, 1, 2]
  inColumn 0 do
    if ← button "💾 Save Configuration" [isPrimary, fillsWidth] then
      setSlot .configured (.bool true)
      setSlot .activeTab (.int 2)
      success "✅ Configuration saved successfully!"
      balloons
      runAgain
  inColumn 1 do
    if ← button "🔄 Reset to Defaults" [fillsWidth] then
      let v ← loadDefaults
      setSlot .config v
      info "ℹ️ Configuration reset to defaults"
      runAgain
  inColumn 2 do
    if ← button "📤 Export Config" [fillsWidth] then
      let v ← require .config
      draw "download_button" []
        [("label", Value.text "📥 Download config.yaml"), ("data", Value.text (Yaml.write v)),
         ("file_name", Value.text "migration_config.yaml"), ("mime", Value.text "text/yaml"), fillsWidth,
         key "download_config"]

/-- Two settings, each with its label. -/
def settingPair (first firstName second secondName : String) : Page Unit := do
  let a ← setting firstName (.text "N/A")
  let b ← setting secondName (.text "N/A")
  info ("\n            **" ++ first ++ ":** `" ++ a.display ++ "`\n\n            **" ++ second ++ ":** `"
    ++ b.display ++ "`\n            ")

def settingsSummary : Page Unit := do
  inExpander "👁️ View Current Configuration" [("expanded", Value.bool false)] do
    let v ← require .config
    showJson v
  markdown "### 📋 Configuration Summary"
  columns 3
  inColumn 0 (settingPair "Pipeline" "pipeline_name" "Data Flow" "dataflow_name")
  inColumn 1 (settingPair "Oracle LS" "oracle_linked_service" "Blob LS" "blob_linked_service")
  inColumn 2 (settingPair "Integration Runtime" "integration_runtime" "Max Parallelism" "max_parallelism")

def configurationPage : Page Unit := do
  header "⚙️ Migration Configuration"
  if !(← session).isSet .loaded then
    warning "⚠️ Please upload and select an XML file first"
    if ← button "← Go to Upload Tab" [] then info "Please click on the 'Upload & Load' tab above"
    stopRun
  markdown "Configure Azure Data Factory settings before migration"
  match (← session).getD .config .null with
  | .null => do
    let v ← loadDefaults
    setSlot .config v
  | _ => pure ()
  pipelineSettings
  connectionSettings
  advancedSettings
  namingSettings
  settingsButtons
  if (← session).isSet .configured then settingsSummary

end MappingFlow.Web
