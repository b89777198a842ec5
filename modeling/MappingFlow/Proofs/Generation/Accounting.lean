/-
  MappingFlow.Proofs.Generation.Accounting — which transformations the written documents
  account for.

  A data flow lists the steps of the transformations that the rules know and that do not
  stand for a source (`flow_names`). The report beside it carries the notes of the
  generator (`report_notes`); what the conversion noted stays in the structure and is not
  asked. So a transformation is accounted for exactly if its name is that of a listed
  step, if it is a source qualifier, or if the generator itself happens to mention it. One
  whose type the rules do not know is lost without a trace.
-/

import MappingFlow.Generation.Basic
import MappingFlow.Proofs.Conversion.Notes
import MappingFlow.Proofs.Generation.Parts
import MappingFlow.Proofs.Storage

namespace MappingFlow

open Conversion Dataflow Generation Scripted
open List

variable {sources sinks : List Fields} {ps : Paired} {t : Generation.State}
variable {s : Generation.State}

/-! ## What the documents say -/

/-- The names of the steps that a data flow lists. -/
def stepNames (dataflow : Value) : List Value :=
  (((dataflow.member "properties").member "typeProperties").memberList "transformations").map (·.member "name")

/-- The warnings and errors of a report. -/
def reportNotes (report : Value) : List String :=
  Value.textItems (report.memberList "warnings") ++ Value.textItems (report.memberList "errors")

def Mentions (note name : String) : Prop := Text.contains name.toList note.toList = true

instance (note name : String) : Decidable (Mentions note name) := inferInstanceAs (Decidable (_ = true))

def Accounted (dataflow report : Value) (t : Transformation) : Prop :=
  .text t.name ∈ stepNames dataflow ∨ t.type = "Source Qualifier" ∨ ∃ note ∈ reportNotes report, Mentions note t.name

/-- A step of that name is written. -/
def Mapping.Keeps (m : Mapping) (r : Rules) (name : String) : Prop :=
  ∃ u ∈ m.known r, m.isWritten r u = true ∧ u.name = name

instance (m : Mapping) (r : Rules) (name : String) : Decidable (m.Keeps r name) :=
  inferInstanceAs (Decidable (∃ u ∈ m.known r, _))

variable {m : Mapping} {r : Rules}

/-! ## The steps of a data flow -/

theorem mem_writeOrder (h : PlanOf r m plan sources ps sinks) : u ∈ m.writeOrder r ↔ u ∈ m.known r := by
  rw [← Paired.sorted_fst h.known, ← h.known]
  exact (Paired.sorted_perm.map Prod.fst).mem_iff.symm

theorem isOwnStep_sourceNames {t : Transformation} (h : StepOf m t type fs)
    (hkind : r.kind? t.type = some type) : isOwnStep m.sourceNames (.object fs) = m.isWritten r t := by
  have hany : m.sourceNames.any (Value.text t.name).same = m.sources.any (·.name == t.name) :=
    Except.ok.inj (inSet_sourceNames t.name)
  rw [isOwnStep, member_of_get? h.name, member_of_get? h.type, hany, Mapping.isWritten, hkind, Option.any_some]

theorem stepParts_names (hps : ps.Match r m) (previous : Value) (earlier) :
    Answers (stepParts m.sourceNames previous earlier ps.steps) fun a =>
      a.1.map (·.entry.member "name") = ((ps.map (·.1)).filter (m.isWritten r)).map fun t => .text t.name := by
  refine stepParts_spec.imp fun a ha => ?_
  rw [← map_eq_of_forall₂ ha fun step p hp => hp.name.symm, Paired.steps, filter_map, filter_map, map_map,
    map_map]
  have hfilter : ps.filter (isOwnStep m.sourceNames ∘ fun p => .object p.2) = ps.filter (m.isWritten r ∘ (·.1)) := by
    refine filter_congr fun p hp => ?_
    obtain ⟨type, hkind, hstep⟩ := hps p hp
    exact isOwnStep_sourceNames hstep hkind
  rw [hfilter]
  refine map_congr_left fun p hp => ?_
  obtain ⟨type, -, hstep⟩ := hps p (mem_filter.mp hp).1
  exact member_of_get? hstep.name

/-- Whatever else a structure holds, its data flow lists the steps that are written. -/
theorem flow_names (datasets) (h : PlanOf r m plan sources ps sinks) : Answers (flow datasets plan) fun f =>
      f.steps.map (·.entry.member "name") = (m.written r).map fun t => .text t.name := by
  have hsorted := Paired.sorted_fst h.known
  have hconnected := connectedSources_eq h
  by_cases hps : ps = []
  · -- Without steps it does not matter which sources are kept.
    have hempty : (Paired.sorted m ps).1 = [] := by subst hps; exact Paired.sorted_perm.nil_eq.symm
    have hnone : m.written r = [] := by rw [Mapping.written, ← hsorted, hempty]; rfl
    refine flow_answers h hconnected (S := fun _ => True) (fun _ _ _ _ => trivial) fun declared _ => ?_
    rw [hempty, hnone]
    exact .pure fun _ _ _ _ => rfl
  · rw [if_neg fun hnone => hps hnone.1] at hconnected
    refine flow_answers h hconnected (eachSource_declared datasets h) fun declared hdeclared => ?_
    rw [hdeclared.1]
    refine (stepParts_names (Paired.sorted_match h.steps) _ _).imp fun a ha _ _ _ _ => ?_
    rwa [hsorted] at ha

theorem keeps_iff (h : PlanOf r m plan sources ps sinks) (name) :
    Value.text name ∈ (m.written r).map (fun t => .text t.name) ↔ m.Keeps r name := by
  unfold Mapping.Keeps Mapping.written
  simp only [mem_map, mem_filter, mem_writeOrder h, Value.text.injEq, and_assoc]

/-! ## The report -/

/-- A file holds the document. -/
def Generation.State.Holds (s : Generation.State) (path : String) (v : Value) : Prop :=
  s.storage.read path = .ok (Encoding.encodeUtf8 (Json.write Json.fileStyle v).toList)

theorem save_holds (h : Runs (save folder name v) s path t) :
    t.Holds path v ∧ t.warnings = s.warnings ∧ t.errors = s.errors := by
  obtain ⟨_, _, hget, h⟩ := Runs.bind_iff.mp h
  obtain ⟨rfl, rfl⟩ := Runs.get_iff.mp hget
  obtain ⟨storage, _, hlift, h⟩ := Runs.bind_iff.mp h
  obtain ⟨hwrite, rfl⟩ := Runs.lift_iff.mp hlift
  obtain ⟨_, _, hset, h⟩ := Runs.bind_iff.mp h
  obtain rfl := Runs.set_iff.mp hset
  obtain ⟨rfl, rfl⟩ := Runs.pure_iff.mp h
  exact ⟨Storage.read_write hwrite, rfl, rfl⟩

theorem report_notes (h : reportDocument moment name plan total counts (scriptedParts s) = .ok report) :
    reportNotes report = s.warnings ++ s.errors := by
  simp only [reportDocument, bind_eq_ok] at h
  obtain ⟨converted, -, statistics, -, sources, -, sinks, -, steps, -, items, -, details, -, advice, -, h⟩ := h
  cases h
  change Value.textItems (s.warnings.map .text) ++ Value.textItems (s.errors.map .text) = _
  rw [textItems_texts, textItems_texts]

theorem scriptedReport_holds (h : Runs (scriptedReport folder moment name plan total) s path t) :
    ∃ report, t.Holds path report ∧ reportNotes report = t.warnings ++ t.errors := by
  obtain ⟨_, _, hget, h⟩ := Runs.bind_iff.mp h
  obtain ⟨rfl, rfl⟩ := Runs.get_iff.mp hget
  obtain ⟨report, _, hlift, h⟩ := Runs.bind_iff.mp h
  obtain ⟨hreport, rfl⟩ := Runs.lift_iff.mp hlift
  obtain ⟨hholds, hwarnings, herrors⟩ := save_holds h
  exact ⟨report, hholds, by rw [report_notes hreport, hwarnings, herrors]⟩

theorem scriptedDataflow_holds (hplan : PlanOf r m plan sources ps sinks)
    (h : Runs (scriptedDataflow folder moment datasets name plan) s path t) :
    ∃ dataflow, t.Holds path dataflow ∧ stepNames dataflow = (m.written r).map fun t => .text t.name := by
  obtain ⟨f, _, hflow, h⟩ := Runs.bind_iff.mp h
  obtain ⟨description, _, -, h⟩ := Runs.bind_iff.mp h
  refine ⟨document name description f, (save_holds h).1, ?_⟩
  rw [← flow_names datasets hplan _ _ _ hflow]
  exact map_map

/-! ## Deliverables -/

/-- What the three runs of a generator leave. Two of the paths may be the same place, so the
    data flow is read before the report is written. -/
structure Delivers (g : Generator) (name : String) (plan : Value) (total : Nat) (a : Generation.State)
    (files : Generator.Files) (b : Generation.State) (dataflow report : Value) : Prop where
  runs : ∃ p d, Runs (g.pipeline name plan) a files.pipeline p ∧ Runs (g.dataflow name plan) p files.dataflow d ∧
    d.Holds files.dataflow dataflow ∧ Runs (g.report name plan total) d files.report b
  report : b.Holds files.report report

/-- What it takes for a transformation to be accounted for, said of the mapping. -/
def Mapping.Accounts (m : Mapping) (r : Rules) (b : Generation.State) (t : Transformation) : Prop :=
  m.Keeps r t.name ∨ t.type = "Source Qualifier" ∨ ∃ note ∈ b.warnings ++ b.errors, Mentions note t.name

variable {g : Generator} {datasets : DatasetNames} {name : String} {plan : Value} {total : Nat}
  {s s' : Conversion.State} {a b : Generation.State} {files : Generator.Files}

theorem delivers_accounted (hstyle : g.style = .scripted datasets) (hconvert : Runs (convertMapping r m) s plan s')
    (hall : Runs (g.all name plan total) a files b) :
    ∃ dataflow report, Delivers g name plan total a files b dataflow report ∧
      ∀ t, Accounted dataflow report t ↔ m.Accounts r b t := by
  obtain ⟨sources, ps, sinks, hplan⟩ := convertMapping_plan hconvert
  obtain ⟨_, p, hpipeline, hall⟩ := Runs.bind_iff.mp hall
  obtain ⟨_, d, hdataflow, hall⟩ := Runs.bind_iff.mp hall
  obtain ⟨_, _, hreport, hall⟩ := Runs.bind_iff.mp hall
  obtain ⟨rfl, rfl⟩ := Runs.pure_iff.mp hall
  have hscripted := hdataflow
  have hnoted := hreport
  rw [Generator.dataflow, hstyle] at hscripted
  rw [Generator.report, hstyle] at hnoted
  obtain ⟨dataflow, hread, hnames⟩ := scriptedDataflow_holds hplan hscripted
  obtain ⟨report, hholds, hnotes⟩ := scriptedReport_holds hnoted
  refine ⟨dataflow, report, ⟨⟨p, d, hpipeline, hdataflow, hread, hreport⟩, hholds⟩, fun t => ?_⟩
  rw [Accounted, Mapping.Accounts, hnames, hnotes, keeps_iff hplan]

/-- Every transformation is accounted for exactly if each is written as a step, is a source
    qualifier, or is mentioned by the generator; what the conversion noted is not read. -/
theorem accounted_iff_accounts (hstyle : g.style = .scripted datasets)
    (hconvert : Runs (convertMapping r m) s plan s') (hall : Runs (g.all name plan total) a files b) :
    ∃ dataflow report, Delivers g name plan total a files b dataflow report ∧
      ((∀ t ∈ m.transformations, Accounted dataflow report t) ↔ ∀ t ∈ m.transformations, m.Accounts r b t) := by
  obtain ⟨dataflow, report, hdelivers, hiff⟩ := delivers_accounted hstyle hconvert hall
  exact ⟨dataflow, report, hdelivers, forall₂_congr fun t _ => hiff t⟩

/-- Scripts, in the current folder. -/
def scriptsHere : Generator := ⟨.scripted .standard, ⟨false, []⟩, ⟨2024, 1, 1, 0, 0, 0⟩⟩

/-- What the generator notes about a mapping, if all its files can be written. -/
def notes? (r : Rules) (m : Mapping) : Option (List String) := do
  let plan ← (outcome (convertMapping r m) .start).1.toOption
  let run := outcome (scriptsHere.all m.name plan m.transformations.length) (.start .empty)
  let _ ← run.1.toOption
  return run.2.warnings ++ run.2.errors

theorem exists_delivery (h : notes? r m = some notes) : ∃ plan s' files b, Runs (convertMapping r m) .start plan s' ∧
      Runs (scriptsHere.all m.name plan m.transformations.length) (.start .empty) files b ∧
      b.warnings ++ b.errors = notes := by
  obtain ⟨plan, hplan, h⟩ := Option.bind_eq_some_iff.mp h
  obtain ⟨files, hfiles, h⟩ := Option.bind_eq_some_iff.mp h
  exact ⟨plan, _, files, _, Runs.of_toOption hplan, Runs.of_toOption hfiles, Option.some.inj h⟩

def sortedRows : Mapping := .between [⟨"SQ", "Source Qualifier", none, [], []⟩, sorter "A"]
  [("S", "SQ"), ("SQ", "A"), ("A", "T")]

theorem sortedRows_accounted : ∃ plan s' files b, Runs (convertMapping .standard sortedRows) .start plan s' ∧
      Runs (scriptsHere.all "m" plan 2) (.start .empty) files b ∧
      ∃ dataflow report, Delivers scriptsHere "m" plan 2 (.start .empty) files b dataflow report ∧
        ∀ t ∈ sortedRows.transformations, Accounted dataflow report t := by
  have hnotes : notes? .standard sortedRows = some [] := by decide +kernel
  obtain ⟨plan, s', files, b, hconvert, hall, -⟩ := exists_delivery hnotes
  obtain ⟨dataflow, report, hdelivers, hiff⟩ := accounted_iff_accounts rfl hconvert hall
  refine ⟨plan, s', files, b, hconvert, hall, dataflow, report, hdelivers, hiff.mpr fun t ht => ?_⟩
  have hplain : ∀ t ∈ sortedRows.transformations,
      sortedRows.Keeps .standard t.name ∨ t.type = "Source Qualifier" := by decide
  exact (hplain t ht).imp_right .inl

/-- A step of a type that the rules do not know. -/
def updatedRows : Mapping := .between [⟨"UPD", "Update Strategy", none, [], []⟩] [("S", "UPD"), ("UPD", "T")]

/-- The update is neither in the data flow nor in the report, though the structure warns of it. -/
theorem updatedRows_unaccounted : Review.Accepts updatedRows ∧
    ∃ plan s' files b, Runs (convertMapping .standard updatedRows) .start plan s' ∧
      Value.textItems (plan.memberList "warnings") = ["Transformación 'Update Strategy' no soportada: UPD"] ∧
      Runs (scriptsHere.all "m" plan 1) (.start .empty) files b ∧
      ∃ dataflow report, Delivers scriptsHere "m" plan 1 (.start .empty) files b dataflow report ∧
        ∃ t ∈ updatedRows.transformations, ¬ Accounted dataflow report t := by
  have hnotes : notes? .standard updatedRows = some [] := by decide +kernel
  have hwarned : (outcome (convertMapping .standard updatedRows) .start).1.toOption.map
      (fun plan => Value.textItems (plan.memberList "warnings")) =
        some ["Transformación 'Update Strategy' no soportada: UPD"] := by decide +kernel
  obtain ⟨plan, s', files, b, hconvert, hall, hempty⟩ := exists_delivery hnotes
  obtain ⟨dataflow, report, hdelivers, hiff⟩ := delivers_accounted rfl hconvert hall
  refine ⟨.of_outcome (by decide +kernel) (by decide +kernel), plan, s', files, b, hconvert, ?_, hall, dataflow, report,
    hdelivers, _, List.mem_cons_self, ?_⟩
  · rw [show outcome (convertMapping .standard updatedRows) .start = (.ok plan, s') from hconvert] at hwarned
    exact Option.some.inj hwarned
  · rw [hiff, Mapping.Accounts, hempty]
    decide

end MappingFlow
