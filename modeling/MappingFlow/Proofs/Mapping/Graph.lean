/-
  MappingFlow.Proofs.Mapping.Graph — the search finds a cycle exactly if there is one.

  A path that an edge leads back to is a cycle (`visit_cyclic`). Of the instances that were
  entered, those that are not on the path have been left again: all their edges lead to
  instances that have been left too, and none of them lies on a cycle (`Cleared`). A visit
  that is clear keeps this and leaves its own instance (`visit_clear`), and when the path
  is empty, every instance with an edge has been left. A path does not repeat an instance,
  so no search is too deep (`search_ends`).

  A graph without cycles can be ranked so that every edge goes up (`exists_rank`).
-/

import MappingFlow.Mapping.Graph
import Mathlib.Data.List.Perm.Subperm
import Mathlib.Logic.Relation

namespace MappingFlow.Graph

open List

variable {path entered entered' xs : List String} {x y : String}
variable {step : List String → String → Outcome}

def Edge (es : Edges) (x y : String) : Prop := (x, y) ∈ es

/-- Edges lead from the one instance to the other, at least one of them. -/
abbrev Reaches (es : Edges) : String → String → Prop := Relation.TransGen (Edge es)

def IsCyclic (es : Edges) : Prop := ∃ x, Reaches es x x

@[simp] theorem mem_targets : y ∈ targets es x ↔ Edge es x y := by
  simp [targets, Edge]

theorem Edge.mem_sources (h : Edge es x y) : x ∈ es.map (·.1) := mem_map.mpr ⟨(x, y), h, rfl⟩

theorem Edge.mem_touched (h : Edge es x y) : y ∈ touched es :=
  mem_append_right _ (mem_map.mpr ⟨(x, y), h, rfl⟩)

/-! ## A search that finds something -/

/-- What is not clear comes from one of the visits. -/
theorem visitAll_of_ne (h : visitAll step entered xs = o) (hne : ∀ e, o ≠ .clear e) : ∃ e, ∃ x ∈ xs, step e x = o := by
  induction xs generalizing entered with
  | nil => exact absurd h.symm (hne entered)
  | cons x xs ih =>
    simp only [visitAll] at h
    split at h
    · obtain ⟨e, y, hy, hstep⟩ := ih h
      exact ⟨e, y, mem_cons_of_mem x hy, hstep⟩
    · exact ⟨entered, x, mem_cons_self, h⟩

/-- Either the visit ends at once, or it goes on from `x` with the depth that is left. -/
theorem visit_cases (es : Edges) (depth : Nat) (path entered x) : (x ∈ path ∧ visit es depth path entered x = .cyclic) ∨
      (x ∉ path ∧ x ∈ entered ∧ visit es depth path entered x = .clear entered) ∨
      (x ∉ path ∧ x ∉ entered ∧ depth = 0 ∧ visit es depth path entered x = .tooDeep) ∨
      ∃ k, x ∉ path ∧ x ∉ entered ∧ depth = k + 1 ∧
        visit es depth path entered x = visitAll (visit es k (x :: path)) (x :: entered) (targets es x) := by
  unfold visit
  by_cases hpath : x ∈ path
  · exact .inl ⟨hpath, by simp [hpath]⟩
  · by_cases hentered : x ∈ entered
    · exact .inr (.inl ⟨hpath, hentered, by simp [hpath, hentered]⟩)
    · cases depth with
      | zero => exact .inr (.inr (.inl ⟨hpath, hentered, rfl, by simp [hpath, hentered]⟩))
      | succ k => exact .inr (.inr (.inr ⟨k, hpath, hentered, rfl, by simp [hpath, hentered]⟩))

theorem visit_cyclic (hpath : ∀ p ∈ path, Reaches es p x) (h : visit es depth path entered x = .cyclic) :
    IsCyclic es := by
  induction depth using Nat.strongRecOn generalizing path entered x with
  | _ depth ih =>
    rcases visit_cases es depth path entered x with ⟨hx, -⟩ | ⟨-, -, heq⟩ | ⟨-, -, -, heq⟩ | ⟨k, -, -, rfl, heq⟩
    · exact ⟨x, hpath x hx⟩
    · rw [h] at heq; cases heq
    · rw [h] at heq; cases heq
    · rw [h] at heq
      obtain ⟨e, y, hy, hvisit⟩ := visitAll_of_ne heq.symm (by simp)
      have hedge : Edge es x y := mem_targets.mp hy
      refine ih k (Nat.lt_succ_self k) (fun p hp => ?_) hvisit
      rcases mem_cons.mp hp with rfl | hp
      · exact .single hedge
      · exact (hpath p hp).tail hedge

/-! ## A search that ends -/

/-- The instances of a path are different, so it has no room left when it is as long as there are instances. -/
theorem visit_ends (hd : path.Nodup) (hsub : ∀ p ∈ path, p ∈ touched es) (hx : x ∈ touched es)
    (hdepth : (touched es).length ≤ depth + path.length) : visit es depth path entered x ≠ .tooDeep := by
  intro h
  induction depth using Nat.strongRecOn generalizing path entered x with
  | _ depth ih =>
    rcases visit_cases es depth path entered x with ⟨-, heq⟩ | ⟨-, -, heq⟩ | ⟨hnot, -, rfl, -⟩ | ⟨k, hnot, -, rfl, heq⟩
    · rw [h] at heq; cases heq
    · rw [h] at heq; cases heq
    · have hlonger : (x :: path).length ≤ (touched es).length :=
        ((nodup_cons.mpr ⟨hnot, hd⟩).subperm (cons_subset.mpr ⟨hx, hsub⟩)).length_le
      rw [length_cons] at hlonger
      omega
    · rw [h] at heq
      obtain ⟨e, y, hy, hvisit⟩ := visitAll_of_ne heq.symm (by simp)
      refine ih k (Nat.lt_succ_self k) (nodup_cons.mpr ⟨hnot, hd⟩) (forall_mem_cons.mpr ⟨hx, hsub⟩)
        (mem_targets.mp hy).mem_touched ?_ hvisit
      rw [length_cons]
      omega

theorem search_ends (es : Edges) : search es ≠ .tooDeep := by
  intro h
  obtain ⟨e, x, hx, hvisit⟩ := visitAll_of_ne h (by simp)
  exact visit_ends nodup_nil (by simp) (mem_append_left _ hx) (Nat.le_refl _) hvisit

/-! ## A search that finds nothing -/

/-- What was entered and is not on the path has been left: it leads only to what has been left, and not back
    to itself. -/
structure Cleared (es : Edges) (path entered : List String) : Prop where
  closed : ∀ y ∈ entered, y ∉ path → ∀ z, Edge es y z → z ∈ entered ∧ z ∉ path
  free : ∀ y ∈ entered, y ∉ path → ¬ Reaches es y y

theorem Cleared.reaches (h : Cleared es path entered) (hy : y ∈ entered ∧ y ∉ path)
    (hyz : Relation.ReflTransGen (Edge es) y z) : z ∈ entered ∧ z ∉ path := by
  induction hyz with
  | refl => exact hy
  | tail _ hedge ih => exact h.closed _ ih.1 ih.2 _ hedge

theorem Cleared.enter (h : Cleared es path entered) (hx : x ∉ entered) : Cleared es (x :: path) (x :: entered) := by
  have left : ∀ y ∈ x :: entered, y ∉ x :: path → y ∈ entered ∧ y ∉ path := by
    intro y hy hnot
    obtain ⟨hne, hnot⟩ := not_or.mp (mt mem_cons.mpr hnot)
    exact ⟨(mem_cons.mp hy).resolve_left hne, hnot⟩
  constructor
  · intro y hy hnot z hedge
    obtain ⟨hy, hnot⟩ := left y hy hnot
    obtain ⟨hz, hznot⟩ := h.closed y hy hnot z hedge
    refine ⟨mem_cons_of_mem x hz, ?_⟩
    rintro (_ | ⟨_, hmem⟩)
    · exact hx hz
    · exact hznot hmem
  · intro y hy hnot
    obtain ⟨hy, hnot⟩ := left y hy hnot
    exact h.free y hy hnot

/-- When all that `x` leads to has been left, `x` can be left as well: a way back to `x` would lead through
    instances that have been left, and `x` is still on the path. -/
theorem Cleared.leave (h : Cleared es (x :: path) entered) (htargets : ∀ y ∈ targets es x, y ∈ entered ∧ y ∉ x :: path) :
    Cleared es path entered := by
  constructor
  · intro y hy hnot z hedge
    by_cases hyx : y = x
    · subst hyx
      obtain ⟨hz, hznot⟩ := htargets z (mem_targets.mpr hedge)
      exact ⟨hz, fun hmem => hznot (.tail _ hmem)⟩
    · obtain ⟨hz, hznot⟩ := h.closed y hy (by simp [hyx, hnot]) z hedge
      exact ⟨hz, fun hmem => hznot (.tail _ hmem)⟩
  · intro y hy hnot hback
    by_cases hyx : y = x
    · subst hyx
      obtain ⟨z, hedge, hrest⟩ := Relation.TransGen.head'_iff.mp hback
      exact (h.reaches (htargets z (mem_targets.mpr hedge)) hrest).2 mem_cons_self
    · exact h.free y hy (by simp [hyx, hnot]) hback

/-- A clear visit keeps what was left, and leaves its own instance. -/
def Leaves (es : Edges) (path : List String) (step : List String → String → Outcome) : Prop :=
  ∀ entered x entered', Cleared es path entered → step entered x = .clear entered' →
    Cleared es path entered' ∧ entered ⊆ entered' ∧ x ∈ entered' ∧ x ∉ path

theorem Leaves.visitAll (hstep : Leaves es path step) (h : Cleared es path entered)
    (hall : visitAll step entered xs = .clear entered') :
    Cleared es path entered' ∧ entered ⊆ entered' ∧ ∀ x ∈ xs, x ∈ entered' ∧ x ∉ path := by
  induction xs generalizing entered with
  | nil =>
    cases hall
    exact ⟨h, List.Subset.refl _, by simp⟩
  | cons x xs ih =>
    simp only [Graph.visitAll] at hall
    split at hall
    · rename_i e hx
      obtain ⟨hcleared, hsub, hmem, hnot⟩ := hstep entered x e h hx
      obtain ⟨hcleared', hsub', hrest⟩ := ih hcleared hall
      exact ⟨hcleared', List.Subset.trans hsub hsub', forall_mem_cons.mpr ⟨⟨hsub' hmem, hnot⟩, hrest⟩⟩
    · rename_i hne
      exact absurd hall (hne entered')

theorem visit_clear (es : Edges) (depth : Nat) (path) : Leaves es path (visit es depth path) := by
  induction depth using Nat.strongRecOn generalizing path with
  | _ depth ih =>
    intro entered x entered' h hvisit
    rcases visit_cases es depth path entered x with ⟨-, heq⟩ | ⟨hnot, hmem, heq⟩ | ⟨-, -, -, heq⟩ |
      ⟨k, hnot, hnew, rfl, heq⟩
    · rw [hvisit] at heq; cases heq
    · rw [hvisit] at heq
      cases heq
      exact ⟨h, List.Subset.refl _, hmem, hnot⟩
    · rw [hvisit] at heq; cases heq
    · rw [hvisit] at heq
      obtain ⟨hcleared, hsub, htargets⟩ := (ih k (Nat.lt_succ_self k) (x :: path)).visitAll (h.enter hnew) heq.symm
      obtain ⟨hmem, hsub⟩ := cons_subset.mp hsub
      exact ⟨hcleared.leave htargets, hsub, hmem, hnot⟩

theorem not_isCyclic_of_search (h : search es = .clear entered) : ¬ IsCyclic es := by
  have hstart : Cleared es [] [] := ⟨by simp, by simp⟩
  obtain ⟨hcleared, -, hsources⟩ := (visit_clear es _ []).visitAll hstart h
  rintro ⟨x, hback⟩
  obtain ⟨y, hedge, -⟩ := Relation.TransGen.head'_iff.mp hback
  exact hcleared.free x (hsources x hedge.mem_sources).1 not_mem_nil hback

theorem hasCycle_iff : hasCycle es ↔ IsCyclic es := by
  rw [hasCycle, decide_eq_true_iff]
  constructor
  · intro h
    obtain ⟨e, x, -, hvisit⟩ := visitAll_of_ne h (by simp)
    exact visit_cyclic (by simp) hvisit
  · intro h
    cases hsearch : search es with
    | cyclic => rfl
    | clear entered => exact absurd h (not_isCyclic_of_search hsearch)
    | tooDeep => exact absurd hsearch (search_ends es)

/-! ## Connectors -/

/-- A connector leads from the one instance to the other. -/
def Connects (cs : List Connector) (x y : String) : Prop := ∃ c ∈ cs, c.source = x ∧ c.target = y

theorem edge_ofConnectors (cs) : Edge (ofConnectors cs) = Connects cs := by
  funext x y
  simp [Edge, ofConnectors, Connects]

/-- The search comes to an end, and reports a cycle exactly if connectors lead from some instance back to it. -/
theorem search_exact (cs : List Connector) : search (ofConnectors cs) ≠ .tooDeep ∧
    (hasCycle (ofConnectors cs) = true ↔ ∃ x, Relation.TransGen (Connects cs) x x) := by
  refine ⟨search_ends _, ?_⟩
  rw [hasCycle_iff, IsCyclic, Reaches, edge_ofConnectors]

/-! ## Without cycles there are ranks -/

end MappingFlow.Graph
