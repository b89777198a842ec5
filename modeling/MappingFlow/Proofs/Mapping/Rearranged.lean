/-
  MappingFlow.Proofs.Mapping.Rearranged — a review does not depend on the order of the
  connectors.

  A review asks the connectors four things: whether they lead in a circle, which instances
  they touch, whether a sorter stands before a step, and how many of them join two lookups.
  The search for a circle follows them in order and stops at the first circle, but it finds
  one exactly if there is one (`Graph.hasCycle_iff`), and the others are questions about all
  connectors. So the reviews of two arrangements are the same program (`mapping_rearranged`).
-/

import MappingFlow.Mapping.Review
import MappingFlow.Proofs.Mapping.Graph
import MappingFlow.Proofs.Running

namespace MappingFlow

/-- The mapping with its connectors in another arrangement, or with other connectors. -/
def Mapping.connectedBy (m : Mapping) (cs : List Connector) : Mapping := { m with connectors := cs }

namespace Graph

theorem ofConnectors_perm (h : cs.Perm ds) : (ofConnectors cs).Perm (ofConnectors ds) := h.map _

theorem hasCycle_perm (h : es.Perm fs) : hasCycle es = hasCycle fs := by
  have hedge : Edge es = Edge fs := by
    funext x y
    exact propext h.mem_iff
  rw [Bool.eq_iff_iff, hasCycle_iff, hasCycle_iff, IsCyclic, IsCyclic, Reaches, Reaches, hedge]

theorem touched_perm (h : es.Perm fs) : (touched es).Perm (touched fs) := (h.map _).append (h.map _)

end Graph

namespace Review

variable {m : Mapping} {cs : List Connector}

/-! ## Names in order -/

theorem mem_insertName (h : n ∈ insertName name names) : n = name ∨ n ∈ names := by
  induction names with
  | nil => exact .inl (List.mem_singleton.mp h)
  | cons k names ih =>
    simp only [insertName] at h
    split at h
    · exact List.mem_cons.mp h
    · split at h
      · exact .inr h
      · rcases List.mem_cons.mp h with rfl | h
        · exact .inr List.mem_cons_self
        · exact (ih h).imp_right (List.mem_cons_of_mem k)

theorem insertName_sorted (h : names.Pairwise (· < ·)) (name) : (insertName name names).Pairwise (· < ·) := by
  induction names with
  | nil => exact List.pairwise_singleton _ name
  | cons k names ih =>
    obtain ⟨hk, hnames⟩ := List.pairwise_cons.mp h
    simp only [insertName]
    split
    · rename_i hlt
      refine List.pairwise_cons.mpr ⟨?_, h⟩
      intro n hn
      rcases List.mem_cons.mp hn with rfl | hn
      · exact hlt
      · exact String.lt_trans hlt (hk n hn)
    · split
      · exact h
      · rename_i hnot hne
        have hlt : k < name := by
          apply Decidable.byContradiction
          intro hge
          exact hne (String.le_antisymm (String.not_lt.mp hge) (String.not_lt.mp hnot))
        refine List.pairwise_cons.mpr ⟨?_, ih hnames⟩
        intro n hn
        rcases mem_insertName hn with rfl | hn
        · exact hlt
        · exact hk n hn

theorem sortNames_sorted (names) : (sortNames names).Pairwise (· < ·) := by
  induction names with
  | nil => exact List.Pairwise.nil
  | cons name names ih => exact insertName_sorted ih name

/-! ## What a review asks the connectors -/

theorem disconnected_rearranged (h : cs.Perm m.connectors) : disconnected (m.connectedBy cs) = disconnected m := by
  have hconnected : (Graph.touched (Graph.ofConnectors cs) ++ m.sources.map (·.name) ++ m.targets.map (·.name)).Perm
      (Graph.touched (Graph.ofConnectors m.connectors) ++ m.sources.map (·.name) ++ m.targets.map (·.name)) :=
    ((Graph.touched_perm (Graph.ofConnectors_perm h)).append_right _).append_right _
  simp only [disconnected, Mapping.connectedBy, hconnected.contains_eq]

theorem flow_rearranged (h : cs.Perm m.connectors) : flow (m.connectedBy cs) = flow m := by
  have hcycle : Graph.hasCycle (Graph.ofConnectors cs) = Graph.hasCycle (Graph.ofConnectors m.connectors) :=
    Graph.hasCycle_perm (Graph.ofConnectors_perm h)
  unfold flow
  rw [disconnected_rearranged h, ← hcycle]
  rfl

theorem unsortedInputs_rearranged (h : cs.Perm m.connectors) : unsortedInputs (m.connectedBy cs) = unsortedInputs m := by
  have hupstream : ∀ name, hasSorterUpstream (m.connectedBy cs) name = hasSorterUpstream m name := fun _ => h.any_eq
  simp only [unsortedInputs, hupstream]
  rfl

theorem chainedLookups_rearranged (h : cs.Perm m.connectors) : chainedLookups (m.connectedBy cs) = chainedLookups m :=
  (h.filter _).length_eq

theorem patterns_rearranged (h : cs.Perm m.connectors) : patterns (m.connectedBy cs) = patterns m := by
  simp only [patterns, unsortedInputs_rearranged h, chainedLookups_rearranged h]

theorem mapping_rearranged (h : cs.Perm m.connectors) : mapping (m.connectedBy cs) = mapping m := by
  simp only [mapping, flow_rearranged h, patterns_rearranged h]
  rfl

/-- Whatever the order of the connectors, a review comes to the same errors, warnings and recommendations, or fails in
    the same way. The names of the steps that are not connected are reported in order, each once. -/
theorem review_ignores_arrangement (h : cs.Perm m.connectors) (f : Findings) :
    outcome (mapping (m.connectedBy cs)) f = outcome (mapping m) f ∧ (disconnected m).Pairwise (· < ·) :=
  ⟨by rw [mapping_rearranged h], sortNames_sorted _⟩

/-- Three lookups in a ring, and two steps that are not connected. -/
def ringOfLookups : Mapping where
  name := "m"
  description := none
  version := standardVersion
  sources := []
  targets := []
  transformations := ["Z", "C", "B", "A", "Y"].map fun name => ⟨name, "Lookup", none, [], []⟩
  connectors := [⟨"A", "B", [], []⟩, ⟨"B", "C", [], []⟩, ⟨"C", "A", [], []⟩]
  properties := []

theorem ringOfLookups_backwards : ringOfLookups.connectors.reverse.Perm ringOfLookups.connectors ∧
    outcome (mapping (ringOfLookups.connectedBy ringOfLookups.connectors.reverse)) .none =
      outcome (mapping ringOfLookups) .none ∧
    disconnected ringOfLookups = ["Y", "Z"] ∧ (disconnected ringOfLookups).Pairwise (· < ·) := by
  have hperm : ringOfLookups.connectors.reverse.Perm ringOfLookups.connectors := List.reverse_perm _
  obtain ⟨hsame, hsorted⟩ := review_ignores_arrangement hperm .none
  exact ⟨hperm, hsame, by decide +kernel, hsorted⟩

end Review

end MappingFlow
