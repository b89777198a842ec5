/-
  MappingFlow.Proofs.Web.Output — a conversion writes where no listed file lies.

  The three files go to the folder for the output, under names that end in `.json`: the
  name of a file has no slash in it, and neither has a moment, so each of them is one part
  of a path. What fails on the way fails after some of these were written or before.
-/

import MappingFlow.Proofs.Generation.Writing
import MappingFlow.Proofs.Web.Uploading

namespace MappingFlow

open List

variable {name : String}

/-! ## Names -/

theorem slash_not_mem_padded (width n : Nat) : '/' ∉ (Generation.Moment.padded width n).toList := by
  unfold Generation.Moment.padded
  dsimp only
  rw [String.toList_ofList, mem_append, not_or]
  refine ⟨fun h => ?_, fun h => ?_⟩
  · exact absurd (mem_replicate.mp h).2 (by decide)
  · exact absurd (Nat.isDigit_of_mem_toDigits (by decide) (by decide) h) (by decide)

theorem slash_not_mem_stamp (m : Generation.Moment) : '/' ∉ m.stamp.toList := by
  unfold Generation.Moment.stamp
  simp only [String.toList_append, mem_append, not_or]
  refine ⟨⟨⟨⟨⟨⟨?_, ?_⟩, ?_⟩, by decide⟩, ?_⟩, ?_⟩, ?_⟩
  all_goals exact slash_not_mem_padded _ _

theorem slash_not_mem_stem {p : Path} (h : p.IsClean) : '/' ∉ p.stem.toList := by
  have hname : '/' ∉ p.name.toList := by
    unfold Path.name
    cases hlast : p.parts.getLast? with
    | none => decide
    | some n => exact (h n (mem_of_getLast? hlast)).1
  unfold Path.stem Path.splitEnding
  dsimp only
  split
  · exact hname
  · rw [String.toList_ofList]
    exact fun hmem => hname (mem_of_mem_take hmem)

namespace Web

variable {α β : Type}

theorem isMarkupName_json (t) : isMarkupName (t ++ ".json") = false := by
  refine Bool.eq_false_iff.mpr fun h => ?_
  obtain ⟨u, hu⟩ := isSuffixOf_iff_suffix.mp h
  have hlast := congrArg List.getLast? hu
  rw [String.toList_append, getLast?_append, getLast?_append] at hlast
  exact absurd (Option.some.inj hlast) (by decide)

theorem fileNames_plain (hname : '/' ∉ name.toList) (h : n ∈ Generation.fileNames moment name) :
    Path.IsPlainName n ∧ isMarkupName n = false := by
  have hstarts : ∀ start ∈ ["pipeline_", "dataflow_", "migration_report_"], '/' ∉ start.toList := by decide
  obtain ⟨start, hstart, rfl⟩ := mem_map.mp h
  -- The name ends in five characters, so it is none of the names that only dots make.
  have hne (t : String) (ht : t.toList.getLast? ≠ some 'n') :
      start ++ name ++ "_" ++ moment.stamp ++ ".json" ≠ t := by
    rintro rfl
    rw [String.toList_append, getLast?_append] at ht
    exact ht rfl
  refine ⟨⟨⟨?_, hne "" (by decide), hne "." (by decide)⟩, hne ".." (by decide)⟩, isMarkupName_json _⟩
  simp only [String.toList_append, mem_append, not_or]
  exact ⟨⟨⟨⟨hstarts start hstart, hname⟩, by decide⟩, slash_not_mem_stamp moment⟩, by decide⟩

/-! ## Files of a conversion -/

theorem isPlainName_output : Path.IsPlainName "output" := by decide

theorem outputFolder_eq : outputFolder = ⟨false, ["output"]⟩ := Path.read_name isPlainName_output.1

/-- Whatever comes of the program, only outlying places are changed. -/
def Spares (x : Filing α) : Prop := ∀ files : Storage, files.ChangedOnly Outlying (outcome x files).2

namespace Spares

theorem of_steady (h : Steady x) : Spares x := fun files => by
  rw [h]
  exact .refl files

theorem bind (hx : Spares x) (hk : ∀ a, Spares (k a)) : Spares (x >>= k) := by
  intro files
  have hfirst := hx files
  rw [outcome_bind]
  generalize outcome x files = o at hfirst ⊢
  obtain ⟨f | a, files'⟩ := o
  · exact hfirst
  · exact hfirst.trans (hk a files')

theorem lift_bind {e : Except Fault α} (hk : ∀ a, e = .ok a → Spares (k a)) : Spares (liftM e >>= k) := by
  cases e with
  | error f => exact of_steady fun _ => rfl
  | ok a => exact hk a rfl

theorem mapM {γ : Type} {k : γ → Filing α} (hk : ∀ c, Spares (k c)) (cs : List γ) : Spares (cs.mapM k) := by
  induction cs with
  | nil => exact of_steady (.pure [])
  | cons c cs ih =>
    rw [mapM_cons]
    exact bind (hk c) fun _ => bind ih fun _ => of_steady (.pure _)

end Spares

/-- A file of the conversion is written in the folder for the output. -/
theorem changedOnly_written (hname : '/' ∉ name.toList) (hn : n ∈ Generation.fileNames moment name)
    {files : Storage} (h : files.writeText (outputFolder.child n).toText text = .ok files') :
    files.ChangedOnly Outlying files' := by
  obtain ⟨hplain, hmarkup⟩ := fileNames_plain hname hn
  have hchild : outputFolder.child n = ⟨false, ["output", n]⟩ := by
    rw [Path.child_eq hplain.1, outputFolder_eq]
    rfl
  have hclean : (outputFolder.child n).IsClean := Path.isClean_child hplain.1 (Path.isClean_read "output")
  refine Storage.changedOnly_write h fun r hr => ⟨n, hmarkup, .inr ?_⟩
  rw [Path.read_toText hclean, hchild] at hr
  exact Storage.place_of_locate (by simpa using Ne.symm hplain.2) hr

theorem changedOnly_textsWritten (hname : '/' ∉ name.toList)
    (h : Generation.TextsWritten (Generation.IsFilePath outputFolder moment name) files files') :
    files.ChangedOnly Outlying files' := by
  induction h with
  | refl => exact .refl _
  | write _ hpath hwrite ih =>
    obtain ⟨n, hn, rfl⟩ := hpath
    exact ih.trans (changedOnly_written hname hn hwrite)

theorem outcome_writeAll (name m) (plan : Value) (files) :
    outcome (writeAll w name m plan) files = match files.makeFolder "output" with
      | .error f => (.error f, files)
      | .ok files' => let made := outcome ((generator w).all name plan m.transformations.length) (.start files')
        (made.1, made.2.storage) := by
  have hfolder : (generator w).folder.toText = "output" := by
    change outputFolder.toText = "output"
    rw [outputFolder_eq]
    rfl
  have hstart : (generator w).start files = (files.makeFolder "output").map Generation.State.start := by
    unfold Generation.Generator.start
    rw [hfolder]
    cases files.makeFolder "output" <;> rfl
  have hget : outcome (get : Filing Storage) files = (.ok files, files) := rfl
  unfold writeAll
  rw [outcome_bind, hget]
  dsimp only
  rw [hstart]
  cases files.makeFolder "output" <;> rfl

theorem writeAll_spares (hname : '/' ∉ name.toList) (m) (plan : Value) : Spares (writeAll w name m plan) := by
  intro files
  rw [outcome_writeAll]
  cases hmade : files.makeFolder "output" with
  | error f => exact .refl files
  | ok files' =>
    refine (Storage.changedOnly_makeFolder isPlainName_output ⟨"output", by decide, .inl rfl⟩ hmade).trans ?_
    exact changedOnly_textsWritten hname
      (Generation.all_writes w.datasets outputFolder w.moment name plan m.transformations.length (.start files'))

theorem isClean_of_pathOf (h : pathOf v = .ok p) : p.IsClean := by
  cases v with
  | text t =>
    cases h
    exact Path.isClean_read t
  | _ => cases h

theorem convertFile_spares (skip : Bool) (file : Value) : Spares (convertFile w skip file) := by
  refine .bind (.of_steady (.lift _)) fun fileName => .bind (.of_steady (.lift _)) fun path => ?_
  refine .lift_bind fun p hp => .bind (.of_steady fun _ => rfl) fun m => .bind (.of_steady (.lift _)) fun plan => ?_
  refine .bind (.of_steady (.lift _)) fun found => .bind ?_ fun written => .of_steady ?_
  · exact writeAll_spares (slash_not_mem_stem (isClean_of_pathOf hp)) m plan
  · exact (Steady.documentAt _).bind fun _ => (Steady.documentAt _).bind fun _ => (Steady.textAt _).bind fun _ => .pure _

/-! ## Reading them back -/

theorem writeAll_isText (h : Runs (writeAll w name m plan) files made files') :
    files'.IsText made.pipeline ∧ files'.IsText made.dataflow ∧ files'.IsText made.report := by
  unfold Runs at h
  rw [outcome_writeAll] at h
  cases hfolder : files.makeFolder "output" with
  | error f => rw [hfolder] at h; cases h
  | ok start =>
    rw [hfolder] at h
    obtain ⟨hmade, rfl⟩ := Prod.mk.inj h
    exact Generation.all_isText (Prod.ext hmade rfl)

theorem textAt_runs (h : files.IsText path) : ∃ text, Runs (textAt path) files text files := by
  obtain ⟨text, h⟩ := h
  exact ⟨text, Prod.ext h rfl⟩

theorem documentAt_runs (h : files.IsText path) : ∃ v, Runs (documentAt path) files v files := by
  obtain ⟨text, h⟩ := textAt_runs h
  exact ⟨_, Runs.bind_iff.mpr ⟨text, files, h, rfl⟩⟩

/-- What was written can be read, so a conversion that writes its files succeeds. -/
theorem writeResult_runs (h : Runs (writeAll w name m plan) files made files') (fileName : Value) (found) :
    ∃ r, Runs (writeResult w name fileName m plan found) files r files' := by
  obtain ⟨hpipeline, hdataflow, hreport⟩ := writeAll_isText h
  obtain ⟨pipeline, hpipeline⟩ := documentAt_runs hpipeline
  obtain ⟨dataflow, hdataflow⟩ := documentAt_runs hdataflow
  obtain ⟨report, hreport⟩ := textAt_runs hreport
  refine ⟨⟨name, fileName, pipeline, dataflow, report, found.errors, found.warnings, made⟩, ?_⟩
  refine Runs.bind_iff.mpr ⟨made, files', h, Runs.bind_iff.mpr ⟨pipeline, files', hpipeline, ?_⟩⟩
  exact Runs.bind_iff.mpr ⟨dataflow, files', hdataflow, Runs.bind_iff.mpr ⟨report, files', hreport, rfl⟩⟩

/-- The paths that the conversion of a file writes to, if nothing fails on the way. -/
def written? (w : Surroundings) (skip : Bool) (file : Value) (files : Storage) : Option Generation.Generator.Files := do
  let _ ← (file.field "name").toOption
  let path ← (file.field "path").toOption
  let p ← (pathOf path).toOption
  let m ← (mappingAt path files).toOption
  let plan ← (outcome (Conversion.convertMapping w.rules m) .start).1.toOption
  let _ ← (findings skip m).toOption
  (outcome (writeAll w p.stem m plan) files).1.toOption

theorem convertFile_runs (h : (written? w skip file files).isSome) :
    ∃ r files', Runs (convertFile w skip file) files r files' := by
  obtain ⟨made, h⟩ := Option.isSome_iff_exists.mp h
  obtain ⟨fileName, hname, h⟩ := Option.bind_eq_some_iff.mp h
  obtain ⟨path, hpath, h⟩ := Option.bind_eq_some_iff.mp h
  obtain ⟨p, hp, h⟩ := Option.bind_eq_some_iff.mp h
  obtain ⟨m, hm, h⟩ := Option.bind_eq_some_iff.mp h
  obtain ⟨plan, hplan, h⟩ := Option.bind_eq_some_iff.mp h
  obtain ⟨found, hfound, h⟩ := Option.bind_eq_some_iff.mp h
  have hwrite : Runs (writeAll w p.stem m plan) files made (outcome (writeAll w p.stem m plan) files).2 :=
    Prod.ext (ok_of_toOption h) rfl
  obtain ⟨r, hr⟩ := writeResult_runs hwrite fileName found
  refine ⟨r, (outcome (writeAll w p.stem m plan) files).2, ?_⟩
  refine Runs.bind_iff.mpr ⟨fileName, files, Runs.lift_iff.mpr ⟨ok_of_toOption hname, rfl⟩, ?_⟩
  refine Runs.bind_iff.mpr ⟨path, files, Runs.lift_iff.mpr ⟨ok_of_toOption hpath, rfl⟩, ?_⟩
  refine Runs.bind_iff.mpr ⟨p, files, Runs.lift_iff.mpr ⟨ok_of_toOption hp, rfl⟩, ?_⟩
  refine Runs.bind_iff.mpr ⟨m, files, Prod.ext (ok_of_toOption hm) rfl, ?_⟩
  refine Runs.bind_iff.mpr ⟨plan, files, Runs.lift_iff.mpr ⟨ok_of_toOption hplan, rfl⟩, ?_⟩
  exact Runs.bind_iff.mpr ⟨found, files, Runs.lift_iff.mpr ⟨ok_of_toOption hfound, rfl⟩, hr⟩

/-! ## The session afterwards -/

theorem Coherent.keepFirst (h : Coherent rules es s files) (ms) : Coherent rules es (s.keepFirst ms) files := by
  cases ms with
  | nil => exact h
  | cons first rest =>
    refine .set_other (.set_other (.set_other ?_ _ (by decide)) _ (by decide)) _ (by decide)
    exact .set_other (.set_other h _ (by decide)) _ (by decide)

theorem Coherent.conclude (h : Coherent rules es s files) (w made) : Coherent rules es (s.conclude w made) files := by
  cases made with
  | error f => exact .set_other (.set_other h _ (by decide)) _ (by decide)
  | ok ms =>
    refine .set_other (.set_other (.keepFirst ?_ ms) _ (by decide)) _ (by decide)
    exact .set_other (.set_other (.set_other h _ (by decide)) _ (by decide)) _ (by decide)

/-- A conversion of the listed files keeps the session coherent. -/
instance (skip : Bool) : Moves w (Keeps (IsCoherent rules)) (migrateFiles skip) := by
  refine ⟨fun s => ?_⟩
  rintro ⟨es, h⟩
  cases es with
  | nil =>
    obtain ⟨es, hrun⟩ := migrateFiles_none (w := w) skip h.listed
    rw [hrun]
    exact h.isCoherent
  | cons e es =>
    have hfiles : s.session.get? .files = some (.list (e.toValue :: es.map Entry.toValue)) := by
      have hlisted := h.listed
      unfold Session.getD at hlisted
      cases hget : s.session.get? .files with
      | none => rw [hget] at hlisted; cases hlisted
      | some v => rw [hget] at hlisted; exact congrArg some hlisted
    obtain ⟨es', lines, hrun⟩ := migrateFiles_runOn (w := w) skip hfiles
    rw [hrun]
    refine ⟨e :: es, (h.moved ?_ fun e _ q hq => hq.not_outlying).conclude w _⟩
    exact Spares.mapM (convertFile_spares skip) _ s.storage

end Web

end MappingFlow
