/-
  MappingFlow.Web.Page — a run of a page.

  A page puts elements on the screen one after another, asks the visitor through some of
  them, and changes the session and the files. A run may be left early: the page stops,
  it asks to be run again, or a fault ends it. A region of the screen that was entered is
  left again after a fault too, but not when the page stops or is to run again.
-/

import MappingFlow.Conversion.Rules
import MappingFlow.Dataflow.Datasets
import MappingFlow.Generation.State
import MappingFlow.Web.Session

namespace MappingFlow.Web

/-- What an element shows. -/
inductive Shown where
  | value (v : Value)
  /-- An archive for download: the names and texts of its files. -/
  | archive (entries : List (String × String))
  | fault (f : Fault)

instance : Coe Value Shown := ⟨.value⟩

structure Element where
  kind : String
  arguments : List Shown
  options : List (String × Shown)

structure Upload where
  name : String
  content : Encoding.Bytes

/-- What the visitor does in one run: the buttons pressed, the values given to the fields
of the page, each by its key or its label, and the files handed over. -/
structure Visitor where
  clicks : List String
  choices : Fields
  uploads : List Upload

/-- What a run depends on besides the visitor. -/
structure Surroundings where
  rules : Rules
  datasets : Dataflow.DatasetNames
  moment : Generation.Moment
  /-- How long a conversion takes, in seconds. -/
  elapsed : Binary64
  /-- What is told of the way to a failure. -/
  trace : String
  visitor : Visitor

/-- Why a run is left early. -/
inductive Leave where
  | stop
  | rerun
  | fault (f : Fault)

structure Screen where
  session : Session
  storage : Storage
  elements : List Element
  printed : List String

abbrev Page := ReaderT Surroundings (ExceptT Leave (StateM Screen))

instance : MonadLift (Except Fault) Page where
  monadLift e :=
    match e with
    | .ok a => pure a
    | .error f => throw (.fault f)

def Page.runOn {α : Type} (p : Page α) (w : Surroundings) (s : Screen) : Except Leave α × Screen :=
  ((ReaderT.run p w).run).run s

/-! ## The screen -/

def session : Page Session := do return (← get).session

def change (f : Session → Session) : Page Unit := modify fun s => { s with session := f s.session }

def setSlot (k : Slot) (v : Value) : Page Unit := change (·.set k v)

def require (k : Slot) : Page Value := do
  let s ← session
  s.require k

def draw (kind : String) (arguments : List Shown) (options : List (String × Shown)) : Page Unit :=
  modify fun s => { s with elements := s.elements ++ [⟨kind, arguments, options⟩] }

def drawText (kind text : String) : Page Unit := draw kind [Value.text text] []

def header (t : String) : Page Unit := drawText "header" t

def subheader (t : String) : Page Unit := drawText "subheader" t

def markdown (t : String) : Page Unit := drawText "markdown" t

def rule : Page Unit := markdown "---"

def success (t : String) : Page Unit := drawText "success" t

def info (t : String) : Page Unit := drawText "info" t

def warning (t : String) : Page Unit := drawText "warning" t

def showError (t : String) : Page Unit := drawText "error" t

def plainText (t : String) : Page Unit := drawText "text" t

def caption (t : String) : Page Unit := drawText "caption" t

def html (t : String) : Page Unit := draw "markdown" [Value.text t] [("unsafe_allow_html", Value.bool true)]

def code (v : Value) (language : String) : Page Unit :=
  draw "code" [v] [("language", Value.text language)]

def showJson (v : Value) : Page Unit := draw "json" [v] []

def balloons : Page Unit := draw "balloons" [] []

/-! ## Leaving a run -/

def stopRun {α : Type} : Page α := do
  draw "stop" [] []
  throw .stop

def runAgain {α : Type} : Page α := do
  draw "rerun" [] []
  throw .rerun

/-- What a part of the page gives, or the fault that ended it. -/
def attempt {α : Type} (body : Page α) : Page (Except Fault α) := fun w => ExceptT.mk do
  match ← (body w).run with
  | .ok a => return .ok (.ok a)
  | .error (.fault f) => return .ok (.error f)
  | .error l => return .error l

/-- The part of the page that lies in a region of the screen. -/
def within {α : Type} (region : List Value) (body : Page α) : Page α := do
  draw "enter" (region.map .value) []
  match ← attempt body with
  | .ok a =>
    draw "exit" [] []
    return a
  | .error f =>
    draw "exit" [] []
    throw (.fault f)

def inColumn {α : Type} (n : Nat) (body : Page α) : Page α := within [.text "column", .int n] body

def inTab {α : Type} (n : Nat) (body : Page α) : Page α := within [.text "tab", .int n] body

def inSidebar {α : Type} (body : Page α) : Page α := within [.text "sidebar"] body

/-- Columns of equal width. -/
def columns (n : Nat) : Page Unit := draw "columns" [Value.int n] []

def columnsOf (widths : List Nat) : Page Unit :=
  draw "columns" [Value.list (widths.map fun (n : Nat) => .int n)] []

def inExpander {α : Type} (label : String) (options : List (String × Shown)) (body : Page α) : Page α := do
  draw "expander" [Value.text label] options
  within [.text "expander"] body

def inSpinner {α : Type} (label : String) (body : Page α) : Page α := do
  draw "spinner" [Value.text label] []
  within [.text "spinner"] body

/-! ## Asking the visitor -/

def visitor : Page Visitor := do return (← read).visitor

/-- What the visitor chose for a field, by its key or its label, or the value it has. -/
def choice (name : String) (absent : Value) : Page Value := do
  return (← visitor).choices.getD name absent

def help (t : String) : String × Shown := ("help", Value.text t)

def key (t : String) : String × Shown := ("key", Value.text t)

def isPrimary : String × Shown := ("type", Value.text "primary")

def fillsWidth : String × Shown := ("use_container_width", Value.bool true)

def isCollapsed : String × Shown := ("label_visibility", Value.text "collapsed")

/-- Whether a button was pressed; it goes by its key if it has one. -/
def buttonBy (name label : String) (options : List (String × Shown)) : Page Bool := do
  draw "button" [Value.text label] options
  return (← visitor).clicks.contains name

def button (label : String) (options : List (String × Shown)) : Page Bool := buttonBy label label options

def keyedButton (name label : String) (options : List (String × Shown)) : Page Bool :=
  buttonBy name label (key name :: options)

def textInput (name label hint : String) (value : Value) : Page Value := do
  draw "text_input" [Value.text label] [("value", value), help hint, key name]
  choice name value

def checkbox (name label hint : String) (value : Value) : Page Value := do
  draw "checkbox" [Value.text label] [("value", value), help hint, key name]
  choice name value

/-- One of several values; `index` is the one it has. -/
def selectBox (name label : String) (values : List Value) (index : Nat) (options : List (String × Shown)) :
    Page Value := do
  draw "selectbox" [Value.text label]
    ([("options", (Value.list values : Shown)), ("index", Value.int index), key name] ++ options)
  choice name (values.getD index .null)

def radio (name label : String) (values : List String) : Page Value := do
  draw "radio" [Value.text label]
    [("options", Value.texts values), ("horizontal", Value.bool true), key name]
  choice name (.text (values.headD ""))

def downloadButton (label : String) (options : List (String × Shown)) : Page Unit :=
  draw "download_button" [Value.text label] options

end MappingFlow.Web
