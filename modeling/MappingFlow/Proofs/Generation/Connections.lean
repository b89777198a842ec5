/-
  MappingFlow.Proofs.Generation.Connections — when a script connects its blocks as the
  connectors of the mapping say.

  A block that takes one stream always reads the step written before it, and every sink
  reads the last step; the connectors into them are not asked. So the script keeps the
  connections of the mapping exactly if, in the write order, each such step stands right
  behind the one that feeds it and every target is fed by the last (`Chained`). Steps
  that wait for nothing are written by name, so a chain whose names are not in that order
  is taken apart.
-/

import MappingFlow.Proofs.Generation.Flow

namespace MappingFlow

open Conversion Dataflow Generation Scripted

variable {m : Mapping} {r : Rules} {f : Flow}

/-- All connectors into the instance come from `u`. -/
def Mapping.SoleFeeder (m : Mapping) (name u : String) : Prop := u ∈ m.feeders name ∧ ∀ w ∈ m.feeders name, w = u

instance (name u : String) : Decidable (m.SoleFeeder name u) := inferInstanceAs (Decidable (_ ∧ _))

theorem Mapping.SoleFeeder.unique {name u v : String} (hu : m.SoleFeeder name u) (hv : m.SoleFeeder name v) : u = v :=
  hv.2 u hu.1

/-- Where the connectors leave no choice, a block that takes one stream reads what they say, which is introduced
    before it if it has a block at all, and so do the sinks. -/
def KeepsConnections (m : Mapping) (f : Flow) : Prop :=
  EachAfter (fun before b => b.takesOne = true → ∀ u, m.SoleFeeder b.output u →
      b.Reads [m.stream u] ∧ (u ∈ (f.steps.map (·.block)).map (·.output) → u ∈ before.map (·.output)))
      (f.steps.map (·.block)) ∧
    ∀ b ∈ f.sinks.map (·.block), ∀ u, m.SoleFeeder b.output u → b.Reads [m.stream u]

/-- In the write order each step that takes one stream comes right behind what feeds it, and every target is fed
    by the last step. -/
def Mapping.Chained (m : Mapping) (r : Rules) : Prop :=
  EachAfter (fun before t => r.takesOne t = true → ∀ u, m.SoleFeeder t.name u →
      m.streamAfter before = m.stream u ∧ (u ∈ (m.written r).map (·.name) → u ∈ before.map (·.name)))
      (m.written r) ∧
    ∀ e ∈ m.targets, ∀ u, m.SoleFeeder e.name u → m.lastStream r = m.stream u

theorem reads_one_iff {b : Block} {previous stream : String} (h : b.inputs = [previous]) :
    b.Reads [stream] ↔ previous = stream := by
  rw [Block.reads_iff (List.cons_ne_nil _ _), h, List.cons.injEq, and_iff_left rfl]

/-- A script keeps the connections of an accepted mapping exactly if the write order chains them. -/
theorem keepsConnections_iff_chained (haccept : Review.Accepts m) (hscript : ScriptOf r m f) :
    KeepsConnections m f ↔ m.Chained r := by
  have h := hscript.flowOf haccept
  refine and_congr (h.steps.eachAfter_iff fun bsBefore b before t hbefore hblock => ?_) ?_
  · rw [hblock.takesOne, hblock.output, h.steps.outputs, hbefore.outputs]
    refine imp_congr_right fun hone => forall_congr' fun u => imp_congr_right fun _ => and_congr_left' ?_
    exact reads_one_iff (hblock.inputs.trans (m.inputs_of_takesOne hone _))
  · rw [h.sinks, List.forall_mem_map]
    refine forall₂_congr fun e _ => forall_congr' fun u => imp_congr_right fun _ => ?_
    exact reads_one_iff rfl

/-- Two sorts behind a source qualifier, named in the order of the connectors. -/
def qualifiedChain : Mapping := .between [⟨"SQ", "Source Qualifier", none, [], []⟩, sorter "A", sorter "B"]
  [("S", "SQ"), ("SQ", "A"), ("A", "B"), ("B", "T")]

theorem qualifiedChain_chained :
    Review.Accepts qualifiedChain ∧ ∃ f, ScriptOf .standard qualifiedChain f ∧ KeepsConnections qualifiedChain f ∧
      qualifiedChain.Chained .standard := by
  have haccept : Review.Accepts qualifiedChain := .of_outcome (by decide +kernel) (by decide +kernel)
  have hblocks : blocks? .standard qualifiedChain =
      some ([.source [] "S"], [.sort "S" [] "A", .sort "A" [] "B"], [.sink "B" "T"]) := by decide +kernel
  obtain ⟨f, hscript, -, hsteps, hsinks⟩ := exists_scriptOf hblocks
  have hkeeps : KeepsConnections qualifiedChain f := by
    rw [KeepsConnections, hsteps, hsinks, EachAfter.cons_iff, EachAfter.cons_iff]
    refine ⟨⟨fun _ u hu => ?_, fun _ u hu => ?_, .nil⟩, List.forall_mem_singleton.mpr fun u hu => ?_⟩
    · obtain rfl := hu.unique (by decide : qualifiedChain.SoleFeeder "A" "SQ")
      exact ⟨(reads_one_iff rfl).mpr (by decide), by decide⟩
    · obtain rfl := hu.unique (by decide : qualifiedChain.SoleFeeder "B" "A")
      exact ⟨(reads_one_iff rfl).mpr (by decide), by decide⟩
    · obtain rfl := hu.unique (by decide : qualifiedChain.SoleFeeder "T" "B")
      exact (reads_one_iff rfl).mpr (by decide)
  exact ⟨haccept, f, hscript, hkeeps, (keepsConnections_iff_chained haccept hscript).mp hkeeps⟩

/-- Two sorts whose names are not in the order of the connectors. -/
def namedBackwards : Mapping := .between [sorter "B", sorter "A"] [("S", "B"), ("B", "A"), ("A", "T")]

/-- The sort that the other one feeds is written first, and reads the source. -/
theorem namedBackwards_loses_connections :
    Review.Accepts namedBackwards ∧ ∃ f, ScriptOf .standard namedBackwards f ∧ ¬ KeepsConnections namedBackwards f := by
  refine ⟨.of_outcome (by decide +kernel) (by decide +kernel), ?_⟩
  have hblocks : blocks? .standard namedBackwards =
      some ([.source [] "S"], [.sort "S" [] "A", .sort "A" [] "B"], [.sink "B" "T"]) := by decide +kernel
  obtain ⟨f, hscript, -, hsteps, -⟩ := exists_scriptOf hblocks
  refine ⟨f, hscript, fun hkeeps => ?_⟩
  have hreads : (Block.sort "S" [] "A").Reads [namedBackwards.stream "B"] :=
    (hkeeps.1 [] _ _ hsteps rfl "B" (by decide)).1
  exact absurd ((reads_one_iff rfl).mp hreads) (by decide)

end MappingFlow
