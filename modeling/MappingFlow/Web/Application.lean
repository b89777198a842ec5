/-
  MappingFlow.Web.Application — the whole application: what surrounds the pages, and
  which page is shown.

  Every run first gives the session the entries it lacks (`Session.begin`). The visitor
  goes from page to page through the navigation; pages that finish their work lead on by
  themselves.
-/

import MappingFlow.Web.Appearance
import MappingFlow.Web.Configuration
import MappingFlow.Web.Preview.Basic
import MappingFlow.Web.Results
import MappingFlow.Web.Upload

namespace MappingFlow.Web

/-- The entries that every session has. -/
def startEntries : List (Slot × Value) :=
  [(.files, .list []), (.loaded, .bool false), (.configured, .bool false), (.migrated, .bool false),
   (.path, .null), (.name, .null), (.plan, .null), (.config, .null), (.pipeline, .null), (.dataflow, .null),
   (.report, .null), (.datasets, .list []), (.errorCount, .int 0), (.warningCount, .int 0),
   (.duration, .real (.zero false)), (.activeTab, .int 0)]

/-- The session with the entries it lacks. -/
def Session.begin (s : Session) : Session :=
  let s := startEntries.foldl (fun s e => s.start e.1 e.2) s
  { s with parsed := some (s.parsed.getD none) }

def debugLog : String := "migration_debug.log"

/-- Begins the log anew. -/
def openDebugLog : Page Unit := do
  let s ← get
  let storage ← s.storage.writeText debugLog ""
  set { s with storage := storage }

def uploadFolder : String := "temp"

def makeUploadFolder : Page Unit := do
  let s ← get
  let storage ← s.storage.makeOneFolder uploadFolder
  set { s with storage := storage }

def pageSettings : Page Unit :=
  draw "set_page_config" []
    [("page_title", Value.text pageTitle), ("page_icon", Value.text "🔄"), ("layout", Value.text "wide"),
     ("initial_sidebar_state", Value.text "expanded"),
     ("menu_items", Value.object [("Get Help", .text helpAddress), ("Report a bug", .text issuesAddress),
       ("About", .text aboutText)])]

/-! ## The sidebar -/

def loadedStatus (s : Session) : Page Unit := do
  if s.isSet .loaded then
    success "✅ XML Loaded"
    let name := s.getD .name .null
    if name.isPresent then caption ("File: " ++ name.display)
  else info "📁 Upload XML file"

def configuredStatus (s : Session) : Page Unit := do
  if s.isSet .configured then
    success "✅ Configured"
    let config := s.getD .config .null
    if config.isPresent then
      let name ← config.fieldD "pipeline_name" (.text "N/A")
      caption ("Pipeline: " ++ name.display)
  else info "⚙️ Configure settings"

def migratedStatus (s : Session) : Page Unit := do
  if s.isSet .migrated then
    success "✅ Migration Complete"
    let time ← twoPlaces (s.getD .duration (.int 0))
    caption ("Time: " ++ time ++ "s")
  else info "🚀 Ready to migrate"

def quickDownload (s : Session) : Page Unit := do
  let pipeline ← s.require .pipeline
  let dataflow ← s.require .dataflow
  let report ← s.require .report
  let entries ← package pipeline dataflow report (s.getD .datasets (.list []))
  let seconds := (← read).moment.seconds
  draw "download_button" []
    [("label", Value.text "📥 Download ZIP"), ("data", .archive entries),
     ("file_name", Value.text ("migration_" ++ mappingName s ++ "_" ++ toString seconds ++ ".zip")),
     ("mime", Value.text "application/zip"), fillsWidth, key "sidebar_download_zip"]

def quickActions (s : Session) : Page Unit := do
  if s.isSet .migrated then
    subheader "⚡ Quick Actions"
    match ← attempt (quickDownload s) with
    | .ok _ => pure ()
    | .error _ => warning "⚠️ Quick download unavailable"

def sidebar : Page Unit := do
  drawText "title" "📋 Navigation"
  rule
  subheader "📊 Process Status"
  let s ← session
  loadedStatus s
  configuredStatus s
  migratedStatus s
  rule
  quickActions s
  rule
  subheader "ℹ️ System Info"
  systemLines.forM caption
  rule
  if ← button "🔄 Reset Application" [fillsWidth] then
    change fun _ => .empty
    runAgain

/-! ## The pages -/

def tabNames : List String :=
  ["📁 Upload & Load", "⚙️ Configuration", "🔍 Preview & Compare", "📊 Results & Export"]

/-- The page that the visitor chose; going to another one takes a run of its own. -/
def navigation : Page Value := do
  let active ← require .activeTab
  draw "pills" [Value.text "Navigation"]
    [("options", Value.list ((List.range tabNames.length).map fun (n : Nat) => .int n)),
     ("labels", Value.texts tabNames), ("default", active), key "main_nav_pills", isCollapsed]
  let chosen ← choice "main_nav_pills" active
  if !chosen.same active then
    setSlot .activeTab chosen
    runAgain
  return active

def pageFor (active : Value) : Page Unit := do
  if active.same (.int 0) then uploadPage
  else if active.same (.int 1) then configurationPage
  else if active.same (.int 2) then previewPage
  else if active.same (.int 3) then resultsPage

def application : Page Unit := do
  openDebugLog
  pageSettings
  html styleSheet
  makeUploadFolder
  change (·.begin)
  html banner
  html subtitle
  inSidebar sidebar
  let active ← navigation
  rule
  pageFor active
  rule
  html footer

end MappingFlow.Web
