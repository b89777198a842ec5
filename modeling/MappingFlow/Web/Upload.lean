/-
  MappingFlow.Web.Upload — the page that loads files and chooses one of them.

  A file that was handed over is stored under `temp` and listed if it can be read; files
  of a folder are listed where they lie. Two files of one name are not listed. Choosing a
  file forgets what was made of another one before, and so does removing the chosen file.
-/

import MappingFlow.Web.Files

namespace MappingFlow.Web

/-! ## Files -/

/-- Whether a file can be read at all, however deep its elements are. -/
def isReadable (content : Encoding.Bytes) : Bool := (Markup.read? none content).isSome

/-- Whether a file of this name is listed. -/
def isListed (name : Value) : List Value → Except Fault Bool
  | [] => .ok false
  | f :: rest => do
    let other ← f.field "name"
    if other.same name then return true
    isListed name rest

def listFile (entry : Value) : Page Unit := do
  match ← require .files with
  | .list fs => setSlot .files (.list (fs ++ [entry]))
  | other => throw (.fault (.noOperation other.kind "append"))

/-! ## Files handed over -/

/-- What became of a file that was handed over. -/
inductive Receipt where
  | known
  | added
  | refused (reason : String)

/-- Stores a file and lists it if it can be read. -/
def store (u : Upload) (path : Path) : Page Receipt := do
  let s ← get
  let storage ← s.storage.write path.toText u.content
  set { s with storage := storage }
  if isReadable u.content then
    listFile (fileEntry u.name path.toText u.content.length)
    return .added
  else
    modify fun s => { s with storage := s.storage.remove path.toText }
    return .refused ("Invalid XML '" ++ u.name ++ "':")

def receive (u : Upload) : Page Receipt := do
  let files ← require .files
  let items ← files.items
  let listed ← isListed (.text u.name) items
  if listed then return .known
  let path := (Path.read "temp").child u.name
  let s ← get
  let storage ← s.storage.makeOneFolder path.parent.toText
  set { s with storage := storage }
  match ← attempt (store u path) with
  | .ok r => return r
  | .error f => return .refused ("Error processing '" ++ u.name ++ "': " ++ f.message)

def Receipt.isAdded : Receipt → Bool
  | .added => true
  | _ => false

def Receipt.reason? : Receipt → Option String
  | .refused r => some r
  | _ => none

def receiveFiles (uploads : List Upload) : Page Unit := do
  let receipts ← uploads.mapM receive
  let added := (receipts.filter Receipt.isAdded).length
  let errors := receipts.filterMap Receipt.reason?
  if 0 < added then
    success ("✅ Successfully added " ++ toString added ++ " file(s)")
    runAgain
  errors.forM fun e => showError ("❌ " ++ e)
  if errors.isEmpty then info ("ℹ️ All " ++ toString uploads.length ++ " file(s) already loaded")

def dropZone : String :=
  "\n        <div style=\"background-color: #f0f2f6; padding: 20px; border-radius: 10px; border: 2px dashed #E31837; text-align: center; margin-bottom: 10px;\">\n            <h4 style=\"color: #E31837; margin: 0;\">📂 Drop your XML files here</h4>\n            <p style=\"color: #666; margin: 5px 0 0 0; font-size: 0.9rem;\">You can drag multiple files at once or click Browse Files below</p>\n        </div>\n        "

def uploadColumn : Page Unit := do
  subheader "🔹 Drag & Drop Multiple Files"
  html dropZone
  draw "file_uploader" [Value.text "Browse Files"]
    [("type", Value.texts ["xml"]), help "Upload one or more PowerCenter mapping XML files",
     key "multiple_uploader", isCollapsed, ("accept_multiple_files", Value.bool true)]
  let uploads := (← visitor).uploads
  if !uploads.isEmpty then receiveFiles uploads

/-! ## Files of a folder -/

/-- The files of a folder that can be read, and the names of those that cannot. -/
def readFolderFiles (folder : Path) : List String → Page (List Value × List String)
  | [] => return ([], [])
  | name :: rest => do
    let path := (folder.child name).toText
    let s ← get
    match s.storage.read path with
    | .error f =>
      warning ("⚠️ Error reading " ++ name ++ ": " ++ f.message)
      readFolderFiles folder rest
    | .ok content =>
      let (entries, invalid) ← readFolderFiles folder rest
      if isReadable content then return (fileEntry name path content.length :: entries, invalid)
      else return (entries, name :: invalid)

def isMarkupName (name : String) : Bool := ".xml".toList.isSuffixOf name.toList

def loadFolder (path : String) : Page (List Value) := do
  let s ← get
  if !s.storage.holds path then
    showError ("❌ Folder not found: " ++ path)
    return []
  let folder := Path.read path
  let names := (s.storage.namesIn folder).filter isMarkupName
  if names.isEmpty then
    warning ("⚠️ No XML files found in: " ++ path)
    return []
  let (entries, invalid) ← readFolderFiles folder (names.mergeSort (fun a b => a ≤ b))
  if !entries.isEmpty then success ("✅ Found " ++ toString entries.length ++ " valid XML file(s)")
  if !invalid.isEmpty then
    inExpander ("⚠️ Skipped " ++ toString invalid.length ++ " invalid XML file(s)") [] do
      invalid.forM fun name => plainText ("  • " ++ name)
  return entries

/-- Lists the files that are not listed yet; answers how many. -/
def listNew : List Value → Page Nat
  | [] => return 0
  | entry :: rest => do
    let name ← entry.field "name"
    let files ← require .files
    let items ← files.items
    let listed ← isListed name items
    if !listed then listFile entry
    let n ← listNew rest
    return if listed then n else n + 1

def loadFromFolder (path : Value) : Page Unit := do
  if !path.isPresent then showError "⚠️ Please enter a folder path"
  else
    let folder ← match path with
      | .text s => pure s
      | v => throw (.fault (.notPath v.kind))
    let entries ← loadFolder folder
    if !entries.isEmpty then
      let added ← listNew entries
      if 0 < added then
        success ("✅ Added " ++ toString added ++ " new XML files")
        runAgain
      else info "ℹ️ All files from folder already loaded"

def folderColumn : Page Unit := do
  subheader "🔹 Batch Upload from Folder"
  draw "text_input" [Value.text "Folder path"]
    [("placeholder", Value.text "C:\\Users\\username\\powercentermappings"),
     help "Enter the full path to a folder containing XML files", key "folder_path", ("value", Value.text "")]
  let path ← choice "folder_path" (.text "")
  columnsOf [1, 2]
  inColumn 0 do
    if ← button "📂 Browse" [help "Tip: Copy folder path from explorer"] then
      info "💡 Tip: Copy the folder path from Windows Explorer and paste it above"
  inColumn 1 do
    if ← button "📥 Load from folder" [isPrimary] then loadFromFolder path

/-! ## Choosing and removing -/

/-- The session with the file chosen and nothing made of it. -/
def Session.choose (s : Session) (path : Value) (name : String) : Session :=
  ((((s.set .path path).set .name (.text name)).set .loaded (.bool true)).setParsed none).set .plan .null
    |>.set .migrated (.bool false)

/-- The session with no file chosen. -/
def Session.unchoose (s : Session) : Session :=
  (((((s.set .path .null).set .name .null).set .loaded (.bool false)).setParsed none).set .plan .null).set
    .migrated (.bool false)

def isActive (s : Session) (path : Value) : Bool := (s.getD .path .null).same path

def chooseFile (file : Value) : Page Unit := do
  let path ← file.field "path"
  let name ← file.field "name"
  let p ← pathOf name
  change (·.choose path p.stem)

def removeFile (file : Value) (index : Nat) : Page Unit := do
  let path ← file.field "path"
  change fun s => if isActive s path then s.unchoose else s
  match ← require .files with
  | .list fs => setSlot .files (.list (fs.eraseIdx index))
  | other => throw (.fault (.noOperation other.kind "pop"))
  runAgain

def tableRow (file : Value) (index : Nat) : Page Unit := do
  columnsOf [4, 2, 1, 1]
  inColumn 0 do
    let path ← file.field "path"
    let name ← file.field "name"
    let active := isActive (← session) path
    plainText ((if active then "▶️" else "📄") ++ " " ++ name.display)
  inColumn 1 do
    let size ← file.field "size"
    plainText (size.display ++ " KB")
  inColumn 2 do
    if ← keyedButton ("view_" ++ toString index) "👁️" [help "Select this file"] then
      chooseFile file
      let name ← file.field "name"
      success ("✅ Selected: " ++ name.display)
      runAgain
  inColumn 3 do
    if ← keyedButton ("delete_" ++ toString index) "🗑️" [help "Remove this file"] then removeFile file index

def cardText (active : Bool) (name size : Value) : String :=
  "\n            <div style=\"border: 2px solid " ++ (if active then "#28a745" else "#ddd")
    ++ ";\n                        background-color: " ++ (if active then "#d4edda" else "#f8f9fa")
    ++ ";\n                        padding: 15px;\n                        border-radius: 8px;\n                        margin-bottom: 15px;\">\n                <h4 style=\"margin: 0 0 10px 0;\">\n                    "
    ++ (if active then "▶️" else "📄") ++ " " ++ name.display
    ++ "\n                </h4>\n                <p style=\"margin: 0; color: #666;\">\n                    <strong>Size:</strong> "
    ++ size.display ++ " KB\n                </p>\n                "
    ++ (if active then
        "<p style=\"margin: 5px 0 0 0; color: #28a745; font-weight: bold;\">✓ Active</p>" else "")
    ++ "\n            </div>\n            "

def card (file : Value) (index : Nat) : Page Unit :=
  inColumn (index % 3) do
    let path ← file.field "path"
    let active := isActive (← session) path
    let name ← file.field "name"
    let size ← file.field "size"
    html (cardText active name size)
    columns 2
    inColumn 0 do
      if ← keyedButton ("view_card_" ++ toString index) "👁️ Select" [fillsWidth] then
        chooseFile file
        runAgain
    inColumn 1 do
      if ← keyedButton ("delete_card_" ++ toString index) "🗑️ Remove" [fillsWidth] then
        removeFile file index

/-- The files of the list, each with its position. -/
def eachFile (view : Value → Nat → Page Unit) (index : Nat) : List Value → Page Unit
  | [] => return ()
  | file :: rest => do
    view file index
    eachFile view (index + 1) rest

/-! ## The page -/

def continueOn : Page Unit := do
  let s ← session
  if !s.isSet .path then
    let files ← require .files
    let items ← files.items
    match items with
    | [] => throw (.fault .outOfRange)
    | first :: _ =>
      let path ← first.field "path"
      setSlot .path path
      let name ← first.field "name"
      let p ← pathOf name
      setSlot .name (.text p.stem)
  setSlot .loaded (.bool true)
  setSlot .activeTab (.int 1)
  success "✅ Ready to configure!"
  runAgain

def fileList (files : Value) : Page Unit := do
  let count ← files.size
  subheader ("📋 Loaded Files (" ++ toString count ++ ")")
  let mode ← radio "view_mode_radio" "View mode:" ["Table", "Cards"]
  let items ← files.items
  if mode.isText "Table" then eachFile tableRow 0 items
  else
    columns 3
    eachFile card 0 items
  rule
  columnsOf [1, 2, 1]
  inColumn 1 do
    if ← button "▶️ Continue to Configuration" [isPrimary, fillsWidth] then continueOn

def uploadPage : Page Unit := do
  header "📁 Upload PowerCenter Mappings"
  markdown "Upload XML files individually or load from a folder containing multiple mappings"
  columns 2
  inColumn 0 uploadColumn
  inColumn 1 folderColumn
  rule
  let files := (← session).getD .files .null
  if files.isPresent then fileList files
  else info "ℹ️ No files loaded yet. Upload a file or load from a folder to get started."

/-! ## Whether a file is an export -/

def exportRoots : List String := ["POWERMART", "Repository", "Folder"]

/-- What a file turns out to be. -/
inductive ExportCheck where
  /-- An export of mappings. -/
  | isExport
  | otherRoot
  | unreadable
  | noFile

def checkExport (content : Option Encoding.Bytes) : ExportCheck :=
  match content with
  | none => .noFile
  | some bytes =>
    match Markup.read? none bytes with
    | none => .unreadable
    | some root =>
      if root.name.space.isEmpty && exportRoots.contains root.name.base then .isExport else .otherRoot

end MappingFlow.Web
