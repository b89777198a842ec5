/-
  MappingFlow.Web.Preview.Basic — the page that shows the chosen mapping beside what it
  converts to.

  The mapping is read and converted once; the session keeps both until another file is
  chosen.
-/

import MappingFlow.Conversion.Basic
import MappingFlow.Web.Diagram
import MappingFlow.Web.Files
import MappingFlow.Web.Preview.Result

namespace MappingFlow.Web

open Preview

/-- A part of the page that stops it if it fails. -/
def orStop (label : String) (body : Page Unit) : Page Unit := do
  match ← attempt body with
  | .ok _ => pure ()
  | .error f =>
    showError ("❌ " ++ label ++ ": " ++ f.message)
    draw "exception" [.fault f] []
    stopRun

def parsed : Page (Option Mapping) := do
  let s ← session
  s.requireParsed

/-- The mapping of the session, which has to be one. -/
def mapping (operation : String) : Page Mapping := do
  match ← parsed with
  | some m => return m
  | none => throw (.fault (.noOperation .null operation))

def readChosen : Page Unit := do
  if ((← session).parsed.getD none).isNone then
    inSpinner "🔄 Parsing PowerCenter XML..." do
      orStop "Failed to parse XML" do
        let path ← require .path
        let m ← readMapping path
        change (·.setParsed (some m))
        success "✅ XML parsed successfully"

/-- What the mapping of the session converts to. -/
def convertChosen : Page Value := do
  let m ← mapping "name"
  let (outcome, _) := (Conversion.convertMapping (← read).rules m).run .start
  let plan ← (outcome : Except Fault Value)
  return plan

def planChosen : Page Unit := do
  match (← session).getD .plan .null with
  | .null =>
    inSpinner "🔄 Translating to Azure Data Factory..." do
      orStop "Failed to translate" do
        let plan ← convertChosen
        setSlot .plan plan
        success "✅ Translation completed"
  | _ => pure ()

def metric (label : String) (count : Nat) : Page Unit :=
  draw "metric" [Value.text label, Value.int count] []

def counts (m : Mapping) : Page Unit := do
  columns 3
  inColumn 0 (metric "📦 Transformations" m.transformations.length)
  inColumn 1 (metric "📥 Sources" m.sources.length)
  inColumn 2 (metric "📤 Targets" m.targets.length)
  rule

/-- The name of the transformation to show: what stands before the first ` (`. -/
def chooseStep (m : Mapping) : Page String := do
  subheader "🎯 Select Transformation to Compare"
  if m.transformations.isEmpty then
    warning "⚠️ No transformations found in mapping"
    stopRun
  let names := m.transformations.map fun t => Value.text (t.name ++ " (" ++ t.type ++ ")")
  let chosen ← selectBox "transform_selector" "Choose a transformation:" names 0 []
  let text ← chosen.textFor "split"
  rule
  return match Text.splitFirst? " (".toList text.toList with
    | some (name, _) => String.ofList name
    | none => text

/-! ## Both sides in a table -/

def row (label : String) (left right : Value) : Value :=
  .object [("Attribute", .text label), ("PowerCenter", left), ("Azure Data Factory", right)]

/-- Names in one text, or `N/A` if there are none. -/
def namesIn (v : Value) : Except Fault Value := do
  let t ← v.joined ", "
  return if t.isEmpty then unknown else .text t

/-- What is compared besides type and name. -/
def typeRows (t : Transformation) (made : Value) : Except Fault (List Value) :=
  match t.type with
  | "Joiner" => do
    let right ← part made "joinType"
    return [row "Join Type" (property t "join_type" unknown) right]
  | "Aggregator" => do
    let leftNames ← namesIn (listed t "group_by")
    let groups ← made.fieldD "groupBy" (.list [])
    let rightNames ← namesIn groups
    let leftCount ← (listed t "aggregates").size
    let aggregates ← made.fieldD "aggregates" (.list [])
    let rightCount ← aggregates.size
    return [row "Group By Fields" leftNames rightNames,
      row "Aggregation Count" (.text (toString leftCount)) (.text (toString rightCount))]
  | "Lookup" => do
    let right ← part made "lookupDataset"
    return [row "Lookup Source" (property t "lookup_table" unknown) right]
  | _ => .ok []

def comparison (t : Option Transformation) (made : Option Value) : Page Unit := do
  match t, made with
  | some t, some made =>
    let type ← part made "type"
    let name ← part made "name"
    let rows ← typeRows t made
    draw "table" [Value.list ([row "Type" (.text t.type) type, row "Name" (.text t.name) name] ++ rows)] []
    success ("✅ **Mapping:** `" ++ t.type ++ "` → `" ++ type.display ++ "`")
  | _, _ => showError "Cannot compare: transformation not found"

/-! ## The page -/

def flow (m : Mapping) : Page Unit := do
  markdown "### Data Flow Architecture"
  code (.text (diagram m)) "mermaid"
  info "💡 Copy this Mermaid code to visualize in tools like mermaid.live"

def previewPage : Page Unit := do
  header "🔍 PowerCenter vs Azure Data Factory Comparison"
  if !(← session).isSet .loaded then
    warning "⚠️ Please upload and select an XML file first"
    stopRun
  if !(← session).isSet .configured then
    warning "⚠️ Please complete configuration first"
    stopRun
  readChosen
  planChosen
  let m ← mapping "transformations"
  counts m
  let name ← chooseStep m
  let t := m.transformations.find? (·.name == name)
  columnsOf [1, 1]
  inColumn 0 do
    subheader "🔵 PowerCenter"
    step t
  inColumn 1 do
    subheader "🟦 Azure Data Factory"
    let made ← findResult (← require .plan) name
    result made
  rule
  inExpander "📊 Detailed Transformation Mapping" [("expanded", Value.bool true)] do
    let made ← findResult (← require .plan) name
    comparison t made
  inExpander "🔀 Complete Data Flow Diagram" [("expanded", Value.bool false)] (flow m)

end MappingFlow.Web
