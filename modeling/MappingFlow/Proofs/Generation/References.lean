/-
  MappingFlow.Proofs.Generation.References — when every stream that a script reads has
  been introduced before.

  A script is `Closed` if each block reads only streams that a strictly earlier block
  introduces. For a mapping that the review accepts this can be told from the mapping
  alone (`ReferencesClosed`). It is not always so: the table that a lookup reads need not
  be a declared source, and no other source is ever written for it.
-/

import MappingFlow.Proofs.Generation.Flow

namespace MappingFlow

open Conversion Dataflow Generation Scripted
open List

/-- Every stream that a block reads is introduced by a strictly earlier block. -/
def Dataflow.Closed (bs : List Block) : Prop :=
  EachAfter (fun before b => ∀ streams, b.Reads streams → ∀ i ∈ streams, ∃ c ∈ before, c.Introduces i) bs

/-- The block reads only what the blocks before it introduce. -/
def Dataflow.ReadsFrom (before : List Block) (b : Block) : Prop :=
  ∀ i ∈ b.inputs, i ∈ before.filterMap (·.introduces)

instance (before : List Block) (b : Block) : Decidable (ReadsFrom before b) :=
  inferInstanceAs (Decidable (∀ i ∈ b.inputs, _))

theorem closed_iff : Closed bs ↔ EachAfter ReadsFrom bs := by
  refine eachAfter_congr fun before b _ => ?_
  simp only [ReadsFrom, mem_filterMap, Block.introduces_iff]
  constructor
  · intro h i hi
    exact h b.inputs ((Block.reads_iff (ne_nil_of_mem hi)).mpr rfl) i hi
  · intro h streams hreads i hi
    exact h i (hreads.1 ▸ hi)

instance (bs : List Block) : Decidable (Closed bs) := decidable_of_iff' _ closed_iff

/-- All sinks read one stream. -/
theorem sinks_closed_iff {es : List Endpoint} (hes : es ≠ []) :
    EachAfter (fun before => ReadsFrom (known ++ before)) (es.map fun e => .sink stream e.name) ↔
      stream ∈ known.filterMap (·.introduces) := by
  constructor
  · intro h
    obtain ⟨e, es, rfl⟩ := exists_cons_of_ne_nil hes
    have := h [] (.sink stream e.name) _ rfl stream (mem_singleton_self _)
    rwa [append_nil] at this
  · intro h before b after hsplit i hi
    have hb : b ∈ es.map fun e => .sink stream e.name := hsplit ▸ mem_append_right _ (.head _)
    obtain ⟨e, -, rfl⟩ := mem_map.mp hb
    obtain rfl : i = stream := mem_singleton.mp hi
    rw [filterMap_append]
    exact mem_append_left _ h

namespace Mapping

variable (m : Mapping) (r : Rules)

/-- The streams that can be read after the given steps. -/
def introduced (ts : List Transformation) : List String :=
  m.sources.map (·.name) ++ (ts.filter (!r.isSilent ·)).map (·.name)

/-- Each step reads only what can be read after the steps before it, and so do the sinks. -/
def ReferencesClosed : Prop :=
  EachAfter (fun before t => ∀ i ∈ m.inputs t r (m.streamAfter before), i ∈ m.introduced r before) (m.written r) ∧
    m.lastStream r ∈ m.introduced r (m.written r)

end Mapping

variable {m : Mapping} {r : Rules}

theorem FlowOf.introduced (h : FlowOf m r f) (hfollows : Follows m r p ts bs) :
    (f.sources.map (·.block) ++ bs).filterMap (·.introduces) = m.introduced r ts := by
  rw [filterMap_append, h.sources.1, hfollows.introduced, Mapping.introduced]

/-- Whether a script reads only what it has introduced is decided by the mapping: by its declared sources, the
    write order of its transformations, and the inputs of its joins and lookups. -/
theorem closed_iff_referencesClosed {f : Flow} (haccept : Review.Accepts m) (hscript : ScriptOf r m f) :
    Closed f.blocks ↔ m.ReferencesClosed r := by
  have h := hscript.flowOf haccept
  have hsources : EachAfter ReadsFrom (f.sources.map (·.block)) := by
    intro before b after hsplit i hi
    rw [h.sources.2 b (hsplit ▸ List.mem_append_right _ (List.mem_cons_self ..))] at hi
    cases hi
  have hsteps : EachAfter (fun before => ReadsFrom (f.sources.map (·.block) ++ before)) (f.steps.map (·.block)) ↔
      EachAfter (fun before t => ∀ i ∈ m.inputs t r (m.streamAfter before), i ∈ m.introduced r before)
        (m.written r) := by
    refine h.steps.eachAfter_iff fun bsBefore b before t hbefore hblock => ?_
    rw [ReadsFrom, h.introduced hbefore, hblock.inputs, Mapping.streamAfter]
  rw [closed_iff, Flow.blocks_eq, EachAfter.append_iff, EachAfter.append_iff, hsteps, h.sinks,
    sinks_closed_iff haccept.targets_ne, h.introduced h.steps, Mapping.ReferencesClosed, and_iff_right hsources]

theorem sortedJoin_referencesClosed :
    Review.Accepts sortedJoin ∧ ∃ f, ScriptOf .standard sortedJoin f ∧ Closed f.blocks ∧
      sortedJoin.ReferencesClosed .standard := by
  have haccept : Review.Accepts sortedJoin := .of_outcome (by decide +kernel) (by decide +kernel)
  have hblocks : blocks? .standard sortedJoin = some ([.source [] "S"],
      [.sort "S" [] "Y", .sort "Y" [] "Z", .join "Z" "Y" [⟨"A", "B"⟩] "inner" "A"], [.sink "A" "T"]) := by
    decide +kernel
  obtain ⟨f, hscript, hsources, hsteps, hsinks⟩ := exists_scriptOf hblocks
  have hclosed : Closed f.blocks := by
    rw [Flow.blocks_eq, hsources, hsteps, hsinks]
    decide
  exact ⟨haccept, f, hscript, hclosed, (closed_iff_referencesClosed haccept hscript).mp hclosed⟩

/-- A lookup in a file that is not among the sources. -/
def fileLookup : Mapping := .between
  [⟨"L", "Lookup Procedure", none, [], [("lookup_table", .text "DIM"), ("source_type", .text "Flat File")]⟩]
  [("S", "L"), ("L", "T")]

/-- No source is written for the file, so the lookup reads a stream that nothing introduces. -/
theorem fileLookup_reads_undeclared :
    Review.Accepts fileLookup ∧ ∃ f, ScriptOf .standard fileLookup f ∧ ¬ Closed f.blocks := by
  refine ⟨.of_outcome (by decide +kernel) (by decide +kernel), ?_⟩
  have hblocks : blocks? .standard fileLookup =
      some ([.source [] "S"], [.lookup "S" "DIM" [] "L"], [.sink "L" "T"]) := by decide +kernel
  obtain ⟨f, hscript, hsources, hsteps, hsinks⟩ := exists_scriptOf hblocks
  refine ⟨f, hscript, ?_⟩
  rw [Flow.blocks_eq, hsources, hsteps, hsinks]
  decide

end MappingFlow
