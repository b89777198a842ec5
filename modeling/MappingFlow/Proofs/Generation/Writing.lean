/-
  MappingFlow.Proofs.Generation.Writing — the files that a generator writes, however it ends.

  Nothing that a data flow is made of touches the files or the list of those written
  (`LeavesFiles`, found by instance search along the program), and saving it comes last: it
  is written whole or not at all (`dataflow_all_or_nothing`). What is left of a script are the
  three texts that are saved, so after a run, successful or not, the files are those of before
  with some of these texts written (`all_writes`). Where all of them are written, all of them
  can be read back (`all_isText`).
-/

import MappingFlow.Generation.Basic
import MappingFlow.Proofs.Storage.Elsewhere

namespace MappingFlow.Generation

variable {α β : Type}

/-! ## Programs that leave the files -/

class LeavesFiles (x : Generating α) : Prop where
  leaves (s : State) : (outcome x s).2.storage = s.storage ∧ (outcome x s).2.generated = s.generated

theorem LeavesFiles.bind (hx : LeavesFiles x) (hk : ∀ a, LeavesFiles (k a)) : LeavesFiles (x >>= k) := by
  refine ⟨fun s => ?_⟩
  have hfirst := hx.leaves s
  rw [outcome_bind]
  generalize outcome x s = o at hfirst ⊢
  obtain ⟨f | a, t⟩ := o
  · exact hfirst
  · have hrest := (hk a).leaves t
    exact ⟨hrest.1.trans hfirst.1, hrest.2.trans hfirst.2⟩

instance pure_leaves (a : α) : LeavesFiles (pure a) := ⟨fun _ => ⟨rfl, rfl⟩⟩

instance (f : Fault) : LeavesFiles (throw f : Generating α) := ⟨fun _ => ⟨rfl, rfl⟩⟩

instance (e : Except Fault α) : LeavesFiles (liftM e) := ⟨fun _ => ⟨rfl, rfl⟩⟩

instance : LeavesFiles (get : Generating State) := ⟨fun _ => ⟨rfl, rfl⟩⟩

instance (x : Generating α) (k : α → Generating β) [hx : LeavesFiles x]
    [hk : ∀ a, LeavesFiles (k a)] : LeavesFiles (x >>= k) := hx.bind hk

instance (c : Prop) [Decidable c] (x y : Generating α) [hx : LeavesFiles x] [hy : LeavesFiles y] :
    LeavesFiles (if c then x else y) := by
  split
  · exact hx
  · exact hy

instance (x : Generating α) (handle : Fault → Generating α) [hx : LeavesFiles x] [hh : ∀ f, LeavesFiles (handle f)] :
    LeavesFiles (tryCatch x handle) := by
  refine ⟨fun s => ?_⟩
  have hfirst := hx.leaves s
  rw [outcome_tryCatch]
  generalize outcome x s = o at hfirst ⊢
  obtain ⟨f | a, t⟩ := o
  · have hrest := (hh f).leaves t
    exact ⟨hrest.1.trans hfirst.1, hrest.2.trans hfirst.2⟩
  · exact hfirst

instance (w : String) : LeavesFiles (warn w) := ⟨fun _ => ⟨rfl, rfl⟩⟩

instance (e : String) : LeavesFiles (reportError e) := ⟨fun _ => ⟨rfl, rfl⟩⟩

instance (l : String) : LeavesFiles (printLine l) := ⟨fun _ => ⟨rfl, rfl⟩⟩

instance (label : String) (v : Value) : LeavesFiles (reviewExpression label v) := by
  unfold reviewExpression; infer_instance

/-! ## Scripts -/

section

open Dataflow Dataflow.Script
open List

variable (t previous : Value) (earlier : List Value)

instance (cs : List Value) : LeavesFiles (derivedColumns earlier cs) := by
  induction cs with
  | nil => exact pure_leaves _
  | cons c cs ih => unfold derivedColumns derivedColumn; infer_instance

instance (cs : List Value) : LeavesFiles (aggregateColumns earlier cs) := by
  induction cs with
  | nil => exact pure_leaves _
  | cons c cs ih => unfold aggregateColumns aggregateColumn; infer_instance

instance (number : Nat) (cs : List Value) : LeavesFiles (branchesFrom number cs) := by
  induction cs generalizing number with
  | nil => exact pure_leaves _
  | cons c cs ih => unfold branchesFrom branch; infer_instance

instance : LeavesFiles (stepBlock t previous earlier) := by
  unfold stepBlock deriveBlock filterBlock aggregateBlock joinBlock splitBlock
  refine .bind inferInstance fun type => .bind inferInstance fun name => ?_
  split <;> infer_instance

end

section

open Scripted

variable (datasets : Dataflow.DatasetNames)

instance (connected : List Value) (use : Value → Value → Generating α)
    [huse : ∀ s name, LeavesFiles (use s name)] (seen sources : List Value) :
    LeavesFiles (eachSource connected use seen sources) := by
  induction sources generalizing seen with
  | nil => exact pure_leaves _
  | cons s sources ih => unfold eachSource; infer_instance

instance (s name : Value) : LeavesFiles (sourcePart datasets s name) := by
  unfold sourcePart; infer_instance

instance (known : List Value) (step : Value) : LeavesFiles (lookupSource datasets known step) := by
  unfold lookupSource; infer_instance

instance (known steps : List Value) : LeavesFiles (lookupSources datasets known steps) := by
  induction steps generalizing known with
  | nil => exact pure_leaves _
  | cons step steps ih =>
    refine .bind inferInstance fun source => ?_
    cases source with
    | none => exact ih known
    | some p => exact .bind (ih _) fun _ => pure_leaves _

instance (sources : List Value) (previous : Value) (earlier steps : List Value) :
    LeavesFiles (stepParts sources previous earlier steps) := by
  induction steps generalizing previous earlier with
  | nil => exact pure_leaves _
  | cons step steps ih => unfold stepParts; infer_instance

instance (previous : Value) (sinks : List Value) :
    LeavesFiles (sinkParts datasets previous sinks) := by
  induction sinks with
  | nil => exact pure_leaves _
  | cons s sinks ih => unfold sinkParts; infer_instance

instance (steps : List Value) : LeavesFiles (orderedSteps steps) := by
  unfold orderedSteps; infer_instance

instance (plan : Value) : LeavesFiles (flow datasets plan) := by
  refine .bind inferInstance fun connected => .bind inferInstance fun _ => .bind inferInstance fun sources => ?_
  exact .bind inferInstance fun declared => inferInstance

end

/-! ## Linked steps -/

section

open Linked

variable (t previous : Value) (label : String)

instance (cs : List Value) : LeavesFiles (namedExpressions label cs) := by
  induction cs with
  | nil => exact pure_leaves _
  | cons c cs ih => unfold namedExpressions namedExpression reviewed; infer_instance

instance (type : Value) (steps : List Value) : LeavesFiles (step t type previous steps) := by
  unfold step deriveStep filterStep aggregateStep splitStep reviewed
  split <;> infer_instance

instance (name : Value) (build : Generating Value) [LeavesFiles build] : LeavesFiles (guarded name build) := by
  unfold guarded; infer_instance

instance (sources : List Value) (before : Option Value) (known ts : List Value) :
    LeavesFiles (stepsFrom sources before known ts) := by
  induction ts generalizing before known with
  | nil => exact pure_leaves _
  | cons t ts ih =>
    cases before <;> cases sources <;> unfold stepsFrom <;> dsimp only <;> infer_instance

instance (s name : Value) : LeavesFiles (sourceEntry s name) := pure_leaves _

instance (last? : Option Value) (sinks : List Value) : LeavesFiles (sinkEntries last? sinks) := by
  induction sinks with
  | nil => exact pure_leaves _
  | cons s sinks ih => cases last? <;> unfold sinkEntries <;> infer_instance

end

/-! ## What is saved -/

/-- From `s` to `t` some texts were written, each at a path with `P`. -/
inductive TextsWritten (P : String → Prop) : Storage → Storage → Prop where
  | refl (s : Storage) : TextsWritten P s s
  | write {s t u : Storage} {path text : String} (before : TextsWritten P s t) (hpath : P path)
    (h : t.writeText path text = .ok u) : TextsWritten P s u

theorem TextsWritten.trans {P : String → Prop} (h : TextsWritten P s t) (h' : TextsWritten P t u) :
    TextsWritten P s u := by
  induction h' with
  | refl => exact h
  | write _ hpath hwrite ih => exact .write ih hpath hwrite

theorem TextsWritten.isText {P : String → Prop} (h : TextsWritten P s t) (hs : s.IsText path) : t.IsText path := by
  induction h with
  | refl => exact hs
  | write _ _ hwrite ih => exact ih.writeText hwrite

def Writes (P : String → Prop) (x : Generating α) : Prop :=
  ∀ s, TextsWritten P s.storage (outcome x s).2.storage

namespace Writes

variable {P : String → Prop}

theorem of_leaves (x : Generating α) [h : LeavesFiles x] : Writes P x := by
  intro s
  rw [(h.leaves s).1]
  exact .refl _

theorem bind (hx : Writes P x) (hk : ∀ a, Writes P (k a)) : Writes P (x >>= k) := by
  intro s
  have hfirst := hx s
  rw [outcome_bind]
  generalize outcome x s = o at hfirst ⊢
  obtain ⟨f | a, t⟩ := o
  · exact hfirst
  · exact hfirst.trans (hk a t)

end Writes

/-- A text that is saved is noted as generated. -/
def saved (s : State) (path : String) : Except Fault Storage → Except Fault String × State
  | .error f => (.error f, s)
  | .ok u => (.ok path, { s with storage := u, generated := s.generated ++ [path] })

theorem outcome_save (folder : Path) (name) (v : Value) (s : State) : outcome (save folder name v) s =
    saved s (folder.child name).toText
      (s.storage.writeText (folder.child name).toText (Json.write Json.fileStyle v)) := by
  have hget : outcome (get : Generating State) s = (.ok s, s) := rfl
  unfold save
  rw [outcome_bind, hget]
  dsimp only
  cases s.storage.writeText (folder.child name).toText (Json.write Json.fileStyle v) <;> rfl

/-- A program that answers the path of a text it has written. -/
structure Saves (P : String → Prop) (x : Generating String) : Prop where
  writes : Writes P x
  isText : ∀ {s path t}, Runs x s path t → t.storage.IsText path

namespace Saves

variable {P : String → Prop}

theorem bind (hx : Writes P x) (hk : ∀ a, Saves P (k a)) : Saves P (x >>= k) where
  writes := hx.bind fun a => (hk a).writes
  isText h := by
    obtain ⟨a, _, -, h⟩ := Runs.bind_iff.mp h
    exact (hk a).isText h

theorem save (v : Value) (hP : P (folder.child name).toText) : Saves P (save folder name v) := by
  refine ⟨fun s => ?_, fun {s path t} h => ?_⟩
  · rw [outcome_save]
    cases hwrite : s.storage.writeText (folder.child name).toText (Json.write Json.fileStyle v) with
    | error f => exact .refl _
    | ok u => exact .write (.refl _) hP hwrite
  · unfold Runs at h
    rw [outcome_save] at h
    cases hwrite : s.storage.writeText (folder.child name).toText (Json.write Json.fileStyle v) with
    | error f => rw [hwrite] at h; cases h
    | ok u =>
      rw [hwrite] at h
      cases h
      exact Storage.isText_writeText hwrite

end Saves

/-- The names of the three files. -/
def fileNames (moment : Moment) (name : String) : List String :=
  ["pipeline_", "dataflow_", "migration_report_"].map fun start => start ++ name ++ "_" ++ moment.stamp ++ ".json"

section

variable (datasets : Dataflow.DatasetNames) (folder : Path) (moment : Moment) (name : String) (plan : Value) (total : Nat)

/-- The path is that of one of the three files. -/
def IsFilePath (path : String) : Prop := ∃ n ∈ fileNames moment name, path = (folder.child n).toText

theorem pipeline_saves : Saves (IsFilePath folder moment name) (Generation.pipeline folder moment name plan) :=
  .bind (.of_leaves _) fun _ => .save _ ⟨_, List.mem_cons_self, rfl⟩

theorem scriptedDataflow_saves :
    Saves (IsFilePath folder moment name) (scriptedDataflow folder moment datasets name plan) := by
  refine .bind (.of_leaves _) fun _ => .bind (.of_leaves _) fun _ => .save _ ⟨_, ?_, rfl⟩
  exact List.mem_cons_of_mem _ List.mem_cons_self

theorem scriptedReport_saves :
    Saves (IsFilePath folder moment name) (scriptedReport folder moment name plan total) := by
  refine .bind (.of_leaves _) fun _ => .bind (.of_leaves _) fun _ => .save _ ⟨_, ?_, rfl⟩
  exact List.mem_cons_of_mem _ (List.mem_cons_of_mem _ List.mem_cons_self)

theorem all_writes :
    Writes (IsFilePath folder moment name) (Generator.all ⟨.scripted datasets, folder, moment⟩ name plan total) := by
  refine .bind (pipeline_saves folder moment name plan).writes fun _ => ?_
  refine .bind (scriptedDataflow_saves datasets folder moment name plan).writes fun _ => ?_
  exact .bind (scriptedReport_saves folder moment name plan total).writes fun _ => .of_leaves _

end

theorem Writes.run {P : String → Prop} (hx : Writes P x) (h : Runs x s a t) : TextsWritten P s.storage t.storage := by
  have hwritten := hx s
  rwa [h] at hwritten

/-- The three files can be read as texts when all of them are written. -/
theorem all_isText (h : Runs (Generator.all ⟨.scripted datasets, folder, moment⟩ name plan total) s files t) :
    t.storage.IsText files.pipeline ∧ t.storage.IsText files.dataflow ∧ t.storage.IsText files.report := by
  obtain ⟨_, s₁, hpipeline, h⟩ := Runs.bind_iff.mp h
  obtain ⟨_, s₂, hdataflow, h⟩ := Runs.bind_iff.mp h
  obtain ⟨_, s₃, hreport, h⟩ := Runs.bind_iff.mp h
  obtain ⟨rfl, rfl⟩ := Runs.pure_iff.mp h
  have hafter := (scriptedReport_saves folder moment name plan total).writes.run hreport
  have hbetween := (scriptedDataflow_saves datasets folder moment name plan).writes.run hdataflow
  refine ⟨hafter.isText (hbetween.isText ?_), hafter.isText ?_, ?_⟩
  · exact (pipeline_saves folder moment name plan).isText hpipeline
  · exact (scriptedDataflow_saves datasets folder moment name plan).isText hdataflow
  · exact (scriptedReport_saves folder moment name plan total).isText hreport

end MappingFlow.Generation
