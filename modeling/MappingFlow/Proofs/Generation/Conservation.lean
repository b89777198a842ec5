/-
  MappingFlow.Proofs.Generation.Conservation — a data flow neither loses nor repeats a step.

  Whatever a structure holds, if its data flow is written, then the document lists exactly
  the steps that stand for no source, each once, also where the sorting gave up. The script
  follows the list: first the blocks of all sources, then the block of each listed step in
  the order of the list, then the blocks of all sinks.
-/

import MappingFlow.Proofs.Generation.Accounting

namespace MappingFlow

open Conversion Dataflow Generation Scripted

theorem stepNames_document (name) (description : Value) (f : Flow) :
    stepNames (document name description f) = f.steps.map (·.entry.member "name") := List.map_map

variable {plan : Value} {f : Flow} {names : List String} {ordered : List Value}

theorem IsStepPart.blockFor (h : IsStepPart step p) : ∃ fs previous, step = .object fs ∧
      Script.BlockFor fs (step.member "type") (step.member "name") previous p.block := by
  obtain ⟨previous, earlier, g, g', hrun⟩ := h.block
  obtain ⟨type, htype, hrest⟩ := Runs.bind_lift_iff.mp hrun
  obtain ⟨name, hname, -⟩ := Runs.bind_lift_iff.mp hrest
  obtain ⟨fs, rfl, hgetType⟩ := Value.field_eq_ok_iff.mp htype
  obtain ⟨_, ⟨⟩, hgetName⟩ := Value.field_eq_ok_iff.mp hname
  refine ⟨fs, previous, rfl, ?_⟩
  rw [member_of_get? hgetType, member_of_get? hgetName]
  exact Script.stepBlock_blockFor hgetName hgetType _ _ _ hrun

namespace MadeOf

variable (h : MadeOf plan f names ordered)

include h

theorem listed (name) (description : Value) : stepNames (document name description f) = givenNames ordered := by
  rw [stepNames_document]
  exact (map_eq_of_forall₂ h.steps fun step p hp => hp.name.symm).symm

end MadeOf

/-- A data flow as it is written, and what its script was made of. -/
theorem scriptedDataflow_madeOf (h : Runs (scriptedDataflow folder moment datasets name plan) s path t) :
    ∃ f u description, Runs (flow datasets plan) s f u ∧ t.Holds path (document name description f) ∧
      ∃ names ordered, MadeOf plan f names ordered := by
  obtain ⟨f, u, hflow, h⟩ := Runs.bind_iff.mp h
  obtain ⟨description, -, h⟩ := Runs.bind_lift_iff.mp h
  exact ⟨f, u, description, hflow, (save_holds h).1, flow_madeOf s f u hflow⟩

/-- A structure with a step for its source, a step of the name of the file that a lookup reads, and a step that is
    listed before the one it reads. -/
def tangledPlan : Value := .object
  [("sources", .list [stepNamed "S" []]),
   ("transformations", .list
      [stepNamed "SQ" [("type", .text "Source Qualifier")],
       stepNamed "A" [("type", .text "Filter"), ("mainInput", .text "L")],
       stepNamed "DIM" [("type", .text "Filter")],
       stepNamed "L" [("type", .text "Lookup"), ("sourceType", .text "Flat File"), ("lookupDataset", .text "DIM")],
       stepNamed "S" [("type", .text "Sort")]]),
   ("sinks", .list [stepNamed "T" []])]

end MappingFlow
