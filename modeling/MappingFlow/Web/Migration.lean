/-
  MappingFlow.Web.Migration — converting all listed files, with the progress on the screen.

  The results enter the session only after the last file: if one file fails, the session
  keeps the failure and what it held before. The files that were written stay.
-/

import MappingFlow.Conversion.Basic
import MappingFlow.Document.Json.Reader
import MappingFlow.Generation.Basic
import MappingFlow.Mapping.Review
import MappingFlow.Web.Files

namespace MappingFlow.Web

/-! ## Progress -/

/-- A file among those to convert; `index` counts from 0. -/
structure Position where
  index : Nat
  total : Nat

/-- Percent of the files that are done, division and product each rounded. -/
def Position.percent (p : Position) : Nat :=
  ((Binary64.ofRatio false p.index p.total).timesNat 100).whole

/-- Percent that one of the four steps of a file takes. -/
def Position.stride (p : Position) : Nat := 25 / p.total

def Position.text (p : Position) : String := toString (p.index + 1) ++ "/" ++ toString p.total

def status (t : String) : Page Unit := drawText "empty.text" t

def progress (percent : Nat) : Page Unit := draw "progress.progress" [Value.int percent] []

/-- Announces one of the four steps of a file. -/
def announce (p : Position) (step : Nat) (doing : String) (name : Value) : Page Unit := do
  status ("⏳ [" ++ p.text ++ "] " ++ doing ++ " " ++ name.display ++ "...")
  progress (p.percent + p.stride * step)

def endProgress : Page Unit := do
  draw "progress.empty" [] []
  draw "empty.empty" [] []

/-! ## One file -/

/-- The folder for all files that are written. -/
def outputFolder : Path := .read "output"

/-- The files written before a failure stay. -/
def writeFiles (name : String) (m : Mapping) (plan : Value) : Page Generation.Generator.Files := do
  let w ← read
  let g : Generation.Generator := ⟨.scripted w.datasets, outputFolder, w.moment⟩
  let start ← g.start (← get).storage
  let (outcome, done) := (g.all name plan m.transformations.length).run start
  modify fun s => { s with storage := done.storage, printed := s.printed ++ done.printed }
  let files ← (outcome : Except Fault Generation.Generator.Files)
  return files

/-- The text of a file that was written. -/
def writtenText (path : String) : Page String := do
  let t ← (← get).storage.readText path
  return t

/-- The content of a document that was written. -/
def writtenDocument (path : String) : Page Value := do
  let t ← writtenText path
  return match Json.read t.toList with
    | .ok v => v
    | .error _ => .object []

def review (m : Mapping) : Page Review.Findings := do
  let (outcome, found) := (Review.mapping m).run .none
  let _ ← (outcome : Except Fault _)
  return found

/-- What became of one file. -/
structure Migrated where
  name : String
  fileName : Value
  pipeline : Value
  dataflow : Value
  report : String
  errors : List String
  warnings : List String
  files : Generation.Generator.Files

def Migrated.toValue (m : Migrated) : Value :=
  .object [("name", .text m.name), ("file_name", m.fileName), ("pipeline_json", m.pipeline),
    ("dataflow_json", m.dataflow), ("report_md", .text m.report), ("datasets", .list []),
    ("errors", .texts m.errors), ("warnings", .texts m.warnings),
    ("file_paths", .object [("pipeline", .text m.files.pipeline), ("dataflow", .text m.files.dataflow),
      ("report", .text m.files.report)])]

def migrateFile (skip : Bool) (p : Position) (file : Value) : Page Migrated := do
  let fileName ← file.field "name"
  let path ← file.field "path"
  let name := (← pathOf path).stem
  status ("📄 Processing " ++ p.text ++ ": " ++ fileName.display)
  announce p 0 "Parsing" fileName
  let m ← readMapping path
  announce p 1 "Translating" fileName
  let (outcome, _) := (Conversion.convertMapping (← read).rules m).run .start
  let plan ← (outcome : Except Fault Value)
  let found ← if skip then pure Review.Findings.none
    else do
      announce p 2 "Validating" fileName
      review m
  announce p 3 "Generating files for" fileName
  let files ← writeFiles name m plan
  let pipeline ← writtenDocument files.pipeline
  let dataflow ← writtenDocument files.dataflow
  let report ← writtenText files.report
  return ⟨name, fileName, pipeline, dataflow, report, found.errors, found.warnings, files⟩

/-! ## All files -/

def migrateEach (skip : Bool) (p : Position) : List Value → Page (List Migrated)
  | [] => return []
  | file :: rest => do
    let m ← migrateFile skip p file
    let ms ← migrateEach skip { p with index := p.index + 1 } rest
    return m :: ms

def errorTotal (ms : List Migrated) : Nat := (ms.flatMap (·.errors)).length

def warningTotal (ms : List Migrated) : Nat := (ms.flatMap (·.warnings)).length

/-- The first of the results is the one shown. -/
def keepFirst : List Migrated → Page Unit
  | [] => return ()
  | first :: _ => do
    setSlot .selected (.int 0)
    setSlot .pipeline first.pipeline
    setSlot .dataflow first.dataflow
    setSlot .report (.text first.report)
    setSlot .datasets (.list [])

def keepResults (ms : List Migrated) : Page Unit := do
  setSlot .migrations (.list (ms.map (·.toValue)))
  setSlot .errorCount (.int (errorTotal ms))
  setSlot .warningCount (.int (warningTotal ms))
  keepFirst ms
  setSlot .duration (.real (← read).elapsed)
  setSlot .migrated (.bool true)

def migrateListed (skip : Bool) (files : Value) (total : Nat) : Page Unit := do
  let items ← files.items
  let ms ← migrateEach skip ⟨0, total⟩ items
  status "⏳ Finalizing migration..."
  progress 100
  keepResults ms
  endProgress
  success ("✅ Successfully migrated " ++ toString total ++ " mapping(s)!")
  if 0 < errorTotal ms then
    warning ("⚠️ " ++ toString (errorTotal ms) ++ " validation error(s) found across all files")
  if 0 < warningTotal ms then
    info ("ℹ️ " ++ toString (warningTotal ms) ++ " warning(s) found across all files")
  balloons

def failed (f : Fault) : Page Unit := do
  endProgress
  let trace := (← read).trace
  setSlot .failure (.text f.message)
  setSlot .failureTrace (.text trace)
  showError "❌ **Migration Failed**"
  showError ("**Error:** " ++ f.message)
  inExpander "🔍 View Full Error Details" [] (code (.text trace) "python")

/-- Converts the listed files; `skip` leaves out their review. -/
def migrateFiles (skip : Bool) : Page Unit := do
  draw "progress" [Value.int 0] []
  draw "empty" [] []
  let files := (← session).getD .files (.list [])
  if !files.isPresent then showError "❌ No XML files loaded"
  else
    let total ← files.size
    match ← attempt (migrateListed skip files total) with
    | .ok _ => return ()
    | .error f => failed f

end MappingFlow.Web
