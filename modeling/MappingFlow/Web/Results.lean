/-
  MappingFlow.Web.Results — the page that runs the conversion and shows what it gave.

  After a conversion each of the four tabs shows one part of a result: of the one chosen,
  if several files were converted, or of the session itself, if it lists none.
-/

import MappingFlow.Web.Migration
import MappingFlow.Web.Package

namespace MappingFlow.Web

/-! ## Figures -/

/-- A number with two places. -/
def twoPlaces : Value → Except Fault String
  | .int n => .ok ((Binary64.ofInt n).fixed 2)
  | .bool b => .ok ((Binary64.ofInt (if b then 1 else 0)).fixed 2)
  | .real x => .ok (x.fixed 2)
  | v => .error (.notNumber v.kind)

def isPositive : Value → Except Fault Bool
  | .int n => .ok (0 < n)
  | .bool b => .ok b
  | .real x => .ok ((Binary64.zero false).lessThan x)
  | v => .error (.notComparable v.kind .int)

def figure (label : String) (v : Value) (options : List (String × Shown)) : Page Unit :=
  draw "metric" [] ([("label", (Value.text label : Shown)), ("value", v)] ++ options)

/-- A figure that counts something unwanted; `color` is that of a change. -/
def complaintFigure (label : String) (v : Value) (color hint : String) : Page Unit :=
  figure label v [("delta", Value.null), ("delta_color", Value.text color), help hint]

def transformationCount : Page Nat := do
  let s ← session
  match ← s.requireParsed with
  | some m => return m.transformations.length
  | none => throw (.fault (.noOperation .null "transformations"))

def figures : Page Unit := do
  subheader "📈 Migration Summary"
  columns 5
  let s ← session
  let errors := s.getD .errorCount (.int 0)
  let warnings := s.getD .warningCount (.int 0)
  inColumn 0 do
    let count ← transformationCount
    figure "📦 Transformations" (.int count) [help "Total transformations migrated"]
  inColumn 1 (complaintFigure "❌ Errors" errors "inverse" "Validation errors found")
  inColumn 2 (complaintFigure "⚠️ Warnings" warnings "off" "Warnings generated")
  inColumn 3 do
    let time ← twoPlaces (s.getD .duration (.int 0))
    figure "⏱️ Time" (.text (time ++ "s")) [help "Total processing time"]
  inColumn 4 do
    let datasets ← (s.getD .datasets (.list [])).size
    figure "📁 Files" (.int (2 + datasets)) [help "Total files generated"]
  if errors.same (.int 0) then success "✅ Migration completed successfully with no errors!"
  else
    let failed ← isPositive errors
    if failed then showError ("❌ Migration completed with " ++ errors.display ++ " errors")
  let warned ← isPositive warnings
  if warned then warning ("⚠️ " ++ warnings.display ++ " warnings require attention")

/-! ## Choosing a result -/

/-- A part of a result and the name of the mapping that it belongs to; the name is looked
up only where it is shown. -/
structure Part where
  content : Value
  name : Except Fault Value

/-- The result at a position, from the end if it is negative. -/
def resultAt (results index : Value) : Except Fault Value :=
  match results with
  | .list rs =>
    let at? (n : Int) : Except Fault Value :=
      let n := if n < 0 then n + rs.length else n
      if n < 0 then .error .outOfRange
      else
        match rs[n.toNat]? with
        | some r => .ok r
        | none => .error .outOfRange
    match index with
    | .int n => at? n
    | .bool b => at? (if b then 1 else 0)
    | v => .error (.listIndexed v.kind)
  | .object _ => .error (.missingNumber 0)
  | .text _ => .error (.textIndexed .text)
  | v => .error (.notIndexable v.kind)

def resultLabel (r : Value) : Except Fault Value := do
  let name ← r.field "name"
  let file ← r.field "file_name"
  return .text (name.display ++ " (" ++ file.display ++ ")")

/-- Lets the visitor choose among several results; the session keeps the choice. -/
def chooseResult (selector : String) (results : Value) (count : Nat) : Page Value := do
  markdown "**Select mapping to view:**"
  let items ← results.items
  let labels ← items.mapM fun r => liftM (resultLabel r)
  let positions := (List.range count).map fun (n : Nat) => Value.int n
  let chosen ← selectBox selector "Mapping:" positions 0
    [("labels", Value.list labels), isCollapsed]
  setSlot .selected chosen
  return chosen

/-- The part of a result to show. `slot` holds it if the session lists no results. -/
def choosePart (selector : String) (slot : Slot) (absent : Value) : Page (Bool × Part) := do
  let s ← session
  let results := s.getD .migrations (.list [])
  if !results.isPresent then
    return (false, ⟨s.getD slot absent, .ok (s.getD .name (.text "mapping"))⟩)
  else
    let count ← results.size
    let index ← if 1 < count then chooseResult selector results count else pure (.int 0)
    let r ← resultAt results index
    let content ← r.field slot.key
    return (true, ⟨content, r.field "name"⟩)

/-- The part of a result to show, if there is any. -/
def part? (selector : String) (slot : Slot) (absent : Value) (label : String) : Page (Option Part) := do
  let (listed, part) ← choosePart selector slot absent
  if part.content.isPresent then return some part
  if listed then
    let name ← part.name
    warning ("⚠️ No " ++ label ++ " generated for " ++ name.display)
  else info ("ℹ️ No " ++ label ++ " generated yet")
  return none

/-! ## The tabs -/

def noClipboard : Page Unit := warning "⚠️ Please install pyperclip to copy to clipboard"

def indented (v : Value) : Value := .text (Json.write Json.packageStyle v)

/-- Buttons to copy and to download a document. -/
def documentButtons (copyKey downloadKey : String) (v : Value) (fileName : Except Fault String) :
    Page Unit := do
  columns 2
  inColumn 0 do
    if ← keyedButton copyKey "📋 Copy JSON" [fillsWidth] then noClipboard
  inColumn 1 do
    let name ← fileName
    downloadButton "📥 Download JSON"
      [("data", indented v), ("file_name", Value.text name), ("mime", Value.text "application/json"),
       fillsWidth, key downloadKey]

def reportButtons (part : Part) : Page Unit := do
  columns 3
  inColumn 0 do
    if ← button "📋 Copy Markdown" [fillsWidth] then noClipboard
  inColumn 1 do
    let name ← part.name
    downloadButton "📥 Download MD"
      [("data", part.content), ("file_name", Value.text ("report_" ++ name.display ++ ".md")),
       ("mime", Value.text "text/markdown"), fillsWidth, key "download_report_md"]
  inColumn 2 (info "💡 PDF export available in ZIP package")

def reportTab : Page Unit := do
  subheader "📄 Migration Report"
  match ← part? "report_selector" .report (.text "") "report" with
  | none => return ()
  | some part =>
    let mode ← radio "report_view_mode" "View mode:" ["Rendered", "Markdown Source"]
    if mode.isText "Rendered" then draw "markdown" [part.content] []
    else code part.content "markdown"
    rule
    reportButtons part

def documentName (start : String) (part : Part) : Except Fault String := do
  let name ← part.name
  return start ++ "_" ++ name.display ++ ".json"

def pipelineTab : Page Unit := do
  subheader "📋 Azure Data Factory Pipeline"
  match ← part? "pipeline_selector" .pipeline (.object []) "pipeline JSON" with
  | none => return ()
  | some part =>
    columns 2
    inColumn 0 do
      let name ← part.content.fieldD "name" (.text "N/A")
      info ("**Pipeline Name:** `" ++ name.display ++ "`")
    inColumn 1 do
      let properties ← part.content.fieldD "properties" (.object [])
      let activities ← properties.fieldD "activities" (.list [])
      let count ← activities.size
      info ("**Activities:** `" ++ toString count ++ "`")
    showJson part.content
    rule
    documentButtons "copy_pipeline" "download_pipeline" part.content (documentName "pipeline" part)

def dataflowTab : Page Unit := do
  subheader "🔄 Azure Data Factory Data Flow"
  match ← part? "dataflow_selector" .dataflow (.object []) "dataflow JSON" with
  | none => return ()
  | some part =>
    let properties ← part.content.fieldD "properties" (.object [])
    let count (key : String) : Except Fault Nat := do
      let v ← properties.fieldD key (.list [])
      v.size
    let sources ← count "sources"
    let steps ← count "transformations"
    let sinks ← count "sinks"
    columns 3
    inColumn 0 (info ("**Sources:** `" ++ toString sources ++ "`"))
    inColumn 1 (info ("**Transformations:** `" ++ toString steps ++ "`"))
    inColumn 2 (info ("**Sinks:** `" ++ toString sinks ++ "`"))
    showJson part.content
    rule
    documentButtons "copy_dataflow" "download_dataflow" part.content (documentName "dataflow" part)

/-- The names of datasets; one without a name goes by its position. -/
def datasetNames (index : Nat) : List Value → Except Fault (List Value)
  | [] => .ok []
  | d :: rest => do
    let name ← d.fieldD "name" (.text ("dataset_" ++ toString index))
    let names ← datasetNames (index + 1) rest
    return name :: names

def datasetNamed (name : Value) : List Value → Except Fault (Option Value)
  | [] => .ok none
  | d :: rest => do
    let own ← d.fieldD "name" .null
    if own.same name then return some d
    datasetNamed name rest

def showDataset (dataset name : Value) : Page Unit := do
  let content ← dataset.fieldD "content" dataset
  showJson content
  rule
  documentButtons ("copy_dataset_" ++ name.display) ("download_dataset_" ++ name.display) content
    (.ok (name.display ++ ".json"))

def datasetsTab : Page Unit := do
  subheader "📦 Dataset Definitions"
  let (_, part) ← choosePart "datasets_mapping_selector" .datasets (.list [])
  if !part.content.isPresent then
    info "ℹ️ No separate dataset files generated (datasets may be embedded in pipeline/dataflow)"
  else
    let count ← part.content.size
    markdown ("**Total Datasets:** `" ++ toString count ++ "`")
    let items ← part.content.items
    let names ← datasetNames 0 items
    let chosen ← selectBox "dataset_selector" "Select dataset to view:" names 0 []
    match ← datasetNamed chosen items with
    | none => return ()
    | some d => if d.isPresent then showDataset d chosen

/-! ## The page -/

def archiveText : String :=
  "\n".intercalate
   ["",
    "    Download all generated files in a single ZIP package:",
    "    - Pipeline JSON",
    "    - DataFlow JSON",
    "    - All Dataset JSONs (if any)",
    "    - Migration Report (Markdown)",
    "    "]

def archiveButton : Page Unit := do
  let s ← session
  let entries ← package (s.getD .pipeline (.object [])) (s.getD .dataflow (.object []))
    (s.getD .report (.text "")) (s.getD .datasets (.list []))
  let name ← s.require .name
  let seconds := (← read).moment.seconds
  downloadButton "📥 Download ZIP Package"
    [("data", .archive entries),
     ("file_name", Value.text ("migration_" ++ name.display ++ "_" ++ toString seconds ++ ".zip")),
     ("mime", Value.text "application/zip"), fillsWidth, isPrimary, key "download_zip_main"]

def archiveSection : Page Unit := do
  subheader "📦 Download Complete Package"
  markdown archiveText
  columnsOf [1, 2, 1]
  inColumn 1 do
    match ← attempt archiveButton with
    | .ok _ => pure ()
    | .error f => showError ("❌ Error creating ZIP package: " ++ f.message)

/-- The failure of the last conversion, until the visitor clears it. -/
def lastFailure : Page Unit := do
  let s ← session
  let failure := s.getD .failure .null
  if failure.isPresent then
    showError "❌ **Previous Migration Failed**"
    showError ("**Error:** " ++ failure.display)
    inExpander "🔍 View Full Error Details" [("expanded", Value.bool false)]
      (code (s.getD .failureTrace (.text "No trace available")) "python")
    if ← button "🔄 Clear Error and Retry" [("type", Value.text "secondary")] then
      setSlot .failure .null
      setSlot .failureTrace .null
      setSlot .migrated (.bool false)
      runAgain
    rule

def skipLabel : String := "⚠️ Skip validation and migrate anyway"

def offerMigration : Page Unit := do
  info "ℹ️ Ready to migrate. Click the button below to start the migration process."
  draw "checkbox" [Value.text skipLabel]
    [("value", Value.bool false),
     help "Enable this to skip validation errors and force migration. Use with caution."]
  let skip ← choice skipLabel (.bool false)
  columnsOf [1, 2, 1]
  inColumn 1 do
    if ← button "🚀 Run Migration" [isPrimary, fillsWidth] then
      migrateFiles skip.isPresent
      runAgain
  stopRun

def resultsPage : Page Unit := do
  header "📊 Migration Results & Export"
  lastFailure
  let s ← session
  if !s.isSet .loaded || !s.isSet .configured then
    warning "⚠️ Please complete upload and configuration first"
    stopRun
  if !s.isSet .migrated then offerMigration
  figures
  rule
  draw "tabs" [Value.texts ["📄 Report", "📋 Pipeline JSON", "🔄 DataFlow JSON", "📦 Datasets"]] []
  inTab 0 reportTab
  inTab 1 pipelineTab
  inTab 2 dataflowTab
  inTab 3 datasetsTab
  rule
  archiveSection

end MappingFlow.Web
