/-
  MappingFlow.Proofs.Generation.StreamNames — which scripts introduce each stream once.

  The sources of a script have distinct names, because a source that occurs twice stops the
  generation, and a step whose name is the text of a source's is passed over. Nothing else
  is looked at: steps that share a name are all written, and so is a sink of the name of a
  source, of a step or of another sink. So the streams are distinct exactly if the names of
  the steps and sinks already are, and if none of them is that of a source
  (`streams_distinct_iff`).
-/

import MappingFlow.Proofs.Generation.Conservation

namespace MappingFlow

open Conversion Dataflow Generation Scripted
open List

/-! ## The names that a structure gives to streams -/

/-- A name as it is written in a script. -/
def title (v : Value) : String := (v.member "name").display

/-- An aggregate that has nothing to compute introduces no stream. -/
def isSilentStep (step : Value) : Bool :=
  (step.member "type").isText "Aggregate" && !(step.member "aggregates").isPresent

/-- The steps and sinks that introduce a stream. -/
def streamParts (plan : Value) : List Value := (ownSteps plan).filter (!isSilentStep ·) ++ sinksOf plan

/-- The names of steps and sinks are distinct, and none of them is the name of a source. -/
structure NamesApart (plan : Value) : Prop where
  distinct : ((streamParts plan).map title).Nodup
  sources : ∀ v ∈ streamParts plan, (sourceNamesOf plan).any (Value.text (title v)).same = false

instance (plan : Value) : Decidable (NamesApart plan) :=
  decidable_of_iff (((streamParts plan).map title).Nodup ∧
      ∀ v ∈ streamParts plan, (sourceNamesOf plan).any (Value.text (title v)).same = false)
    ⟨fun h => ⟨h.1, h.2⟩, fun h => ⟨h.1, h.2⟩⟩

/-! ## The streams of a script -/

variable {plan : Value} {f : Flow} {names : List String} {ordered : List Value}

theorem isUnclosed_eq (fs : Fields) (type : Value) (htype : (Value.object fs).member "type" = type) :
    Script.isUnclosed fs type = isSilentStep (.object fs) := by
  have hpresent : (fs.getD "aggregates" (.list [])).isPresent = ((Value.object fs).member "aggregates").isPresent := by
    simp only [Value.member, Fields.getD]
    cases fs.get? "aggregates" <;> rfl
  rw [Script.isUnclosed, isSilentStep, htype, hpresent]

theorem IsStepPart.introduces {step : Value} {p : Part} (h : IsStepPart step p) :
    p.block.introduces = if isSilentStep step then none else some (title step) := by
  obtain ⟨fs, previous, rfl, hblock⟩ := h.blockFor
  rw [hblock.introduces, isUnclosed_eq fs _ rfl]
  rfl

theorem filterMap_title (steps : List Value) :
    steps.filterMap (fun step => if isSilentStep step then none else some (title step)) =
      (steps.filter (!isSilentStep ·)).map title := by
  induction steps with
  | nil => rfl
  | cons step steps ih => cases hs : isSilentStep step <;> simp [hs, ih]

/-- Sources first, then the steps that introduce a stream, then the sinks. -/
theorem MadeOf.introduced (h : MadeOf plan f names ordered) : f.blocks.filterMap (·.introduces) =
      names ++ (ordered.filter (!isSilentStep ·)).map title ++ (sinksOf plan).map title := by
  have hsources : f.sources.filterMap (·.block.introduces) = names := by
    refine (filterMap_eq_of_forall₂ h.sources (k := some) fun s p hp => ?_).symm.trans filterMap_some
    obtain ⟨columns, hblock⟩ := hp.block
    rw [hblock]
    rfl
  have hsteps : f.steps.filterMap (·.block.introduces) = (ordered.filter (!isSilentStep ·)).map title := by
    rw [← filterMap_title]
    exact (filterMap_eq_of_forall₂ h.steps fun step p hp => hp.introduces.symm).symm
  have hsinks : f.sinks.filterMap (·.block.introduces) = (sinksOf plan).map title := by
    rw [← filterMap_eq_map]
    refine (filterMap_eq_of_forall₂ h.sinks fun sink p hp => ?_).symm
    obtain ⟨input, hblock⟩ := hp.block
    rw [hblock]
    rfl
  rw [Flow.blocks, filterMap_map, filterMap_append, filterMap_append]
  exact congrArg₂ _ (congrArg₂ _ hsources hsteps) hsinks

theorem nonempty_of_mem_streamParts {v : Value} (h : v ∈ streamParts plan) : stepsOf plan ≠ [] ∨ sinksOf plan ≠ [] := by
  rcases mem_append.mp h with hstep | hsink
  · exact .inl (ne_nil_of_mem (mem_filter.mp (mem_filter.mp hstep).1).1)
  · exact .inr (ne_nil_of_mem hsink)

theorem MadeOf.nodup_introduced_iff (h : MadeOf plan f names ordered) :
    (f.blocks.filterMap (·.introduces)).Nodup ↔ NamesApart plan := by
  have hperm : ((ordered.filter (!isSilentStep ·)).map title ++ (sinksOf plan).map title).Perm
      ((streamParts plan).map title) := by
    rw [streamParts, map_append]
    exact ((h.perm.symm.filter _).map _).append_right _
  have hsources : ∀ v ∈ streamParts plan,
      title v ∈ names ↔ (sourceNamesOf plan).any (Value.text (title v)).same = true := fun v hv =>
    (h.named (nonempty_of_mem_streamParts hv) (title v)).trans any_same_text.symm
  rw [h.introduced, append_assoc, nodup_append, hperm.nodup_iff]
  constructor
  · rintro ⟨-, hdistinct, happart⟩
    refine ⟨hdistinct, fun v hv => Bool.eq_false_iff.mpr fun hsame => ?_⟩
    exact happart _ ((hsources v hv).mpr hsame) _ (hperm.mem_iff.mpr (mem_map.mpr ⟨v, hv, rfl⟩)) rfl
  · intro hnames
    refine ⟨h.distinct, hnames.distinct, ?_⟩
    rintro s hs _ ht rfl
    obtain ⟨v, hv, rfl⟩ := mem_map.mp (hperm.mem_iff.mp ht)
    exact Bool.false_ne_true ((hnames.sources v hv).symm.trans ((hsources v hv).mp hs))

/-- The streams that the script of a data flow introduces are distinct exactly if the names of steps and sinks are apart
    from each other and from those of the sources. -/
theorem streams_distinct_iff {folder : Path} {moment : Moment} {datasets : DatasetNames} {name path : String}
    {s t : Generation.State} (h : Runs (scriptedDataflow folder moment datasets name plan) s path t) :
    ∃ f u description, Runs (flow datasets plan) s f u ∧ t.Holds path (document name description f) ∧
      ((f.blocks.filterMap (·.introduces)).Nodup ↔ NamesApart plan) := by
  obtain ⟨f, u, description, hflow, hholds, names, ordered, hmade⟩ := scriptedDataflow_madeOf h
  exact ⟨f, u, description, hflow, hholds, hmade.nodup_introduced_iff⟩

/-- A lookup in a file, a step that stands for its source and one that stands for the file. -/
theorem tangledPlan_streams_distinct : NamesApart tangledPlan ∧
    ∃ path t, Runs (scriptedDataflow ⟨false, []⟩ ⟨2024, 1, 1, 0, 0, 0⟩ .standard "M" tangledPlan) (.start .empty) path t ∧
      ∃ f u description, Runs (flow .standard tangledPlan) (.start .empty) f u ∧
        t.Holds path (document "M" description f) ∧ (f.blocks.filterMap (·.introduces)).Nodup := by
  have hapart : NamesApart tangledPlan := by decide +kernel
  obtain ⟨path, hrun⟩ : ∃ path, Runs (scriptedDataflow ⟨false, []⟩ ⟨2024, 1, 1, 0, 0, 0⟩ .standard "M" tangledPlan)
      (.start .empty) path _ := Runs.of_isOk (by decide +kernel)
  obtain ⟨f, u, description, hflow, hholds, hiff⟩ := streams_distinct_iff hrun
  exact ⟨hapart, path, _, hrun, f, u, description, hflow, hholds, hiff.mpr hapart⟩

/-- A table that is read and written back. -/
def mirrorPlan : Value := .object
  [("sources", .list [stepNamed "S" []]), ("transformations", .list [stepNamed "F" [("type", .text "Filter")]]),
   ("sinks", .list [stepNamed "S" []])]

theorem mirrorPlan_streams_repeated :
    ∃ path t, Runs (scriptedDataflow ⟨false, []⟩ ⟨2024, 1, 1, 0, 0, 0⟩ .standard "M" mirrorPlan) (.start .empty) path t ∧
      ∃ f u description, Runs (flow .standard mirrorPlan) (.start .empty) f u ∧
        t.Holds path (document "M" description f) ∧ f.blocks.filterMap (·.introduces) = ["S", "F", "S"] ∧
        ¬ (f.blocks.filterMap (·.introduces)).Nodup := by
  obtain ⟨path, hrun⟩ : ∃ path, Runs (scriptedDataflow ⟨false, []⟩ ⟨2024, 1, 1, 0, 0, 0⟩ .standard "M" mirrorPlan)
      (.start .empty) path _ := Runs.of_isOk (by decide +kernel)
  obtain ⟨f, u, description, hflow, hholds, -⟩ := scriptedDataflow_madeOf hrun
  have hstreams : (outcome (flow .standard mirrorPlan) (.start .empty)).1.toOption.map
      (fun f => f.blocks.filterMap (·.introduces)) = some ["S", "F", "S"] := by decide +kernel
  rw [show outcome (flow .standard mirrorPlan) (.start .empty) = _ from hflow] at hstreams
  have hstreams : f.blocks.filterMap (·.introduces) = ["S", "F", "S"] := Option.some.inj hstreams
  exact ⟨path, _, hrun, f, u, description, hflow, hholds, hstreams, by rw [hstreams]; decide⟩

end MappingFlow
