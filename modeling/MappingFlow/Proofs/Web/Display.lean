/-
  MappingFlow.Proofs.Web.Display — the parts of the pages that only show something.

  The preview of a step and of what it was converted to, the figures and the archive of a
  conversion and the status beside the pages enter nothing in the session and write no
  file. The tabs of the results enter which result was chosen, and the settings enter what
  the visitor gives them; nothing else in the session changes on the way.
-/

import MappingFlow.Proofs.Web.Page
import MappingFlow.Web.Application

namespace MappingFlow.Web

variable {w : Surroundings} {R : Screen → Screen → Prop} [Frame R]

set_option synthInstance.maxSize 20000

/-! ## The preview of a step -/

namespace Preview

variable (t : Transformation) (v : Value) (label : String)

instance : Moves w R (sql v) := draw_moves ..
instance : Moves w R (labelled label v) := draw_moves ..
instance : Moves w R (bullet label) := draw_moves ..
instance : Moves w R (routerGroup v) := by unfold routerGroup; infer_instance

instance : Moves w R (stepDetails t) := by
  dsimp only [stepDetails, sourceQualifier, override, joiner, joinSide, aggregator, lookup, router, sorter, expressions,
    filter, assignments]
  split <;> infer_instance

instance (t : Option Transformation) : Moves w R (step t) := by
  cases t with
  | none => exact showError_moves _
  | some t =>
    refine .after fun _ => .after fun _ => ?_
    cases t.description <;> infer_instance

instance : Moves w R (script v) := draw_moves ..

instance : Moves w R (resultDetails v) := by
  refine .after fun type => ?_
  dsimp only [sourceResult, joinResult, aggregateResult, lookupResult, splitResult, sortResult, deriveResult, filterResult,
    conditions, assignments]
  split <;> infer_instance

instance (v : Option Value) : Moves w R (result v) := by
  cases v <;> unfold result <;> infer_instance

end Preview

instance (label : String) (body : Page Unit) [Moves w R body] : Moves w R (orStop label body) := by
  refine .after fun outcome => ?_
  cases outcome <;> infer_instance

instance : Moves w R parsed := by unfold parsed; infer_instance

instance (operation : String) : Moves w R (mapping operation) := by
  refine .after fun m => ?_
  cases m <;> infer_instance

instance (label : String) (n : Nat) : Moves w R (metric label n) := draw_moves ..

instance (m : Mapping) : Moves w R (counts m) := by unfold counts; infer_instance

instance (m : Mapping) : Moves w R (chooseStep m) := by unfold chooseStep; infer_instance

instance (t : Option Transformation) (made : Option Value) : Moves w R (comparison t made) := by
  cases t <;> cases made <;> unfold comparison <;> infer_instance

instance (m : Mapping) : Moves w R (flow m) := by unfold flow; infer_instance

/-! ## Results -/

instance : Moves w R transformationCount := by
  refine .after fun s => .after fun m => ?_
  cases m <;> infer_instance

instance : Moves w R figures := by unfold figures complaintFigure figure; infer_instance

instance (copyKey downloadKey : String) (v : Value) (fileName : Except Fault String) :
    Moves w R (documentButtons copyKey downloadKey v fileName) := by
  unfold documentButtons noClipboard; infer_instance

instance : Moves w R archiveSection := by
  unfold archiveSection
  have hbutton : Moves w R archiveButton := by unfold archiveButton; infer_instance
  refine .after fun _ => .after fun _ => .after fun _ => ?_
  refine @inColumn_moves _ _ _ _ _ _ ?_
  refine .bind hbutton.attempt fun outcome => ?_
  cases outcome <;> infer_instance

section

variable [Allows R .selected]

instance (selector : String) (slot : Slot) (absent : Value) :
    Moves w R (choosePart selector slot absent) := by
  unfold choosePart chooseResult; infer_instance

instance (selector : String) (slot : Slot) (absent : Value) (label : String) :
    Moves w R (part? selector slot absent label) := by
  refine .after fun chosen => ?_
  infer_instance

instance : Moves w R reportTab := by
  refine .after fun _ => .after fun part => ?_
  cases part <;> dsimp only [reportButtons, noClipboard] <;> infer_instance

instance : Moves w R pipelineTab := by
  refine .after fun _ => .after fun part => ?_
  cases part <;> infer_instance

instance : Moves w R dataflowTab := by
  refine .after fun _ => .after fun part => ?_
  cases part <;> infer_instance

instance : Moves w R datasetsTab := by
  refine .after fun _ => .after fun chosen => ?_
  dsimp only
  split
  · infer_instance
  · refine .after fun _ => .after fun _ => .after fun _ => ?_
    refine .after fun _ => .after fun _ => .after fun found => ?_
    cases found <;> dsimp only [showDataset] <;> infer_instance

/-- What is shown of a conversion. -/
def shownResults : Page Unit := do
  figures
  rule
  draw "tabs" [Value.texts ["📄 Report", "📋 Pipeline JSON", "🔄 DataFlow JSON", "📦 Datasets"]] []
  inTab 0 reportTab
  inTab 1 pipelineTab
  inTab 2 dataflowTab
  inTab 3 datasetsTab
  rule
  archiveSection

instance : Moves w R shownResults := by unfold shownResults; infer_instance

end

theorem resultsPage_eq : resultsPage = (do
    header "📊 Migration Results & Export"
    lastFailure
    let s ← session
    if !s.isSet .loaded || !s.isSet .configured then
      warning "⚠️ Please complete upload and configuration first"
      stopRun
    if !s.isSet .migrated then offerMigration
    shownResults) := rfl

/-! ## Settings -/

section

variable [Allows R .config]

instance (name : String) (v : Value) : Moves w R (keepSetting name v) := by
  refine .after fun settings => ?_
  cases settings <;> infer_instance

instance : Moves w R pipelineSettings := by unfold pipelineSettings textSetting setting; infer_instance
instance : Moves w R connectionSettings := by unfold connectionSettings textSetting setting; infer_instance
instance : Moves w R advancedSettings := by
  unfold advancedSettings flagSetting parallelism computeType setting; infer_instance
instance : Moves w R namingSettings := by unfold namingSettings textSetting flagSetting setting; infer_instance
instance : Moves w R loadDefaults := by unfold loadDefaults; infer_instance
instance : Moves w R settingsSummary := by unfold settingsSummary settingPair setting; infer_instance

variable [Allows R .configured] [Allows R .activeTab]

instance : Moves w R settingsButtons := by unfold settingsButtons; infer_instance

instance : Moves w R configurationPage := by
  refine .after fun _ => .after fun s => ?_
  dsimp only
  split
  · infer_instance
  · refine .after fun _ => .after fun s => ?_
    cases s.getD .config .null <;> infer_instance

end

/-! ## Beside the pages -/

instance : Moves w R pageSettings := draw_moves ..

variable (s : Session)

instance : Moves w R (loadedStatus s) := by unfold loadedStatus; infer_instance
instance : Moves w R (configuredStatus s) := by unfold configuredStatus; infer_instance
instance : Moves w R (migratedStatus s) := by unfold migratedStatus; infer_instance

instance : Moves w R (quickActions s) := by
  unfold quickActions quickDownload
  split
  · refine .after fun _ => .after fun outcome => ?_
    cases outcome <;> infer_instance
  · infer_instance

end MappingFlow.Web
