/-
  MappingFlow.Proofs.Mapping.Extracted — a mapping that was read from a document can be reviewed.

  Only the groups of a router can stop a review, if they are not what the review takes them
  for. Those that an element gives rise to are (`ofElement_groups`), so the review of a
  mapping that was read ends, whatever it finds (`review_ends`).
-/

import MappingFlow.Mapping.Extraction
import MappingFlow.Mapping.Review
import MappingFlow.Proofs.Running

namespace MappingFlow

variable {σ α β : Type}

/-! ## Programs that always end -/

def Ends (x : ExceptT Fault (StateM σ) α) : Prop := ∀ s, ∃ a t, Runs x s a t

namespace Ends

theorem pure (a : α) : Ends (pure a : ExceptT Fault (StateM σ) α) := fun s => ⟨a, s, Runs.pure_iff.mpr ⟨rfl, rfl⟩⟩

theorem modify (f : σ → σ) : Ends (modify f : ExceptT Fault (StateM σ) Unit) := fun s => ⟨(), f s, rfl⟩

theorem set (u : σ) : Ends (set u : ExceptT Fault (StateM σ) PUnit) := fun _ => ⟨⟨⟩, u, rfl⟩

theorem bind (hx : Ends x) (hk : ∀ a, Ends (k a)) : Ends (x >>= k) := by
  intro s
  obtain ⟨a, t, hfirst⟩ := hx s
  obtain ⟨b, u, hrest⟩ := hk a t
  exact ⟨b, u, Runs.bind_iff.mpr ⟨a, t, hfirst, hrest⟩⟩

theorem bind_ok {e : Except Fault α} (he : e = .ok a) (hk : Ends (k a)) : Ends (monadLift e >>= k) := by
  intro s
  obtain ⟨b, u, hrest⟩ := hk s
  exact ⟨b, u, Runs.bind_lift_iff.mpr ⟨a, he, hrest⟩⟩

theorem ite {c : Prop} [Decidable c] (hx : Ends x) (hy : Ends y) : Ends (if c then x else y) := by
  split
  · exact hx
  · exact hy

end Ends

theorem exists_of_mem_mapM {f : α → Except Fault β} {xs : List α} {y : β} (h : xs.mapM f = .ok ys)
    (hy : y ∈ ys) : ∃ x ∈ xs, f x = .ok y := by
  induction xs generalizing ys with
  | nil =>
    cases h
    cases hy
  | cons x xs ih =>
    rw [List.mapM_cons] at h
    obtain ⟨z, hz, h⟩ := bind_eq_ok.mp h
    obtain ⟨zs, hzs, h⟩ := bind_eq_ok.mp h
    cases h
    rcases List.mem_cons.mp hy with rfl | hy
    · exact ⟨x, List.mem_cons_self, hz⟩
    · obtain ⟨x', hx', hfx⟩ := ih hzs hy
      exact ⟨x', List.mem_cons_of_mem _ hx', hfx⟩

/-! ## The groups of a router -/

/-- The groups of a router are values that were made of groups. -/
def HasGroups (t : Transformation) : Prop :=
  ∃ gs : List Properties.RouterGroup, t.properties.getD "groups" (.list []) = .list (gs.map (·.toValue))

theorem transformation_groups (h : Extraction.transformation e = .ok t) (ht : t.type = "Router") : HasGroups t := by
  unfold Extraction.transformation at h
  obtain ⟨cs, -, h⟩ := bind_eq_ok.mp h
  obtain ⟨properties, hproperties, h⟩ := bind_eq_ok.mp h
  cases h
  dsimp only at ht
  rw [ht] at hproperties
  cases hproperties
  exact ⟨_, rfl⟩

theorem ofBytes_groups (h : Mapping.ofBytes content = .ok m) (ht : t ∈ m.transformations) (htype : t.type = "Router") :
    HasGroups t := by
  unfold Mapping.ofBytes at h
  split at h
  · cases h
  · unfold Mapping.ofElement at h
    obtain ⟨sources, -, h⟩ := bind_eq_ok.mp h
    obtain ⟨targets, -, h⟩ := bind_eq_ok.mp h
    obtain ⟨transformations, hall, h⟩ := bind_eq_ok.mp h
    cases h
    obtain ⟨e, -, he⟩ := exists_of_mem_mapM hall ht
    exact transformation_groups he htype

/-! ## Reviews -/

namespace Review

theorem ends_rejectIf (b : Bool) (e) : Ends (rejectIf b e) := .ite (.modify _) (.pure _)

theorem ends_warnIf (b : Bool) (e) : Ends (warnIf b e) := .ite (.modify _) (.pure _)

theorem ends_recommendIf (b : Bool) (e) : Ends (recommendIf b e) := .ite (.modify _) (.pure _)

theorem ends_warnAll (ws) : Ends (warnAll ws) := by
  induction ws with
  | nil => exact .pure _
  | cons w ws ih => exact .bind (.modify _) fun _ => ih

theorem ends_joiner (t) : Ends (joiner t) :=
  .bind (ends_rejectIf _ _) fun _ => .bind (ends_warnIf _ _) fun _ => .bind (ends_warnIf _ _) fun _ =>
    ends_recommendIf _ _

theorem ends_aggregator (t) : Ends (aggregator t) :=
  .bind (ends_rejectIf _ _) fun _ => ends_recommendIf _ _

theorem ends_lookup (t) : Ends (lookup t) := by
  refine .ite (.ite ?_ ?_) ?_
  all_goals refine .bind ?_ fun _ => .bind (ends_warnIf _ _) fun _ => ends_warnIf _ _
  · exact .modify _
  · exact .modify _
  · exact ends_rejectIf _ _

theorem ends_routerGroup (t : Transformation) (g : Properties.RouterGroup) : Ends (routerGroup t g.toValue) := by
  refine .bind_ok rfl (.ite (.bind_ok rfl (.ite (.bind_ok rfl (.modify _)) (.pure _))) (.pure _))

theorem ends_routerGroups (t : Transformation) (gs : List Properties.RouterGroup) :
    Ends (routerGroups t (gs.map (·.toValue))) := by
  induction gs with
  | nil => exact .pure _
  | cons g gs ih => exact .bind (ends_routerGroup t g) fun _ => ih

theorem ends_router (h : HasGroups t) : Ends (router t) := by
  obtain ⟨gs, hgs⟩ := h
  unfold router
  rw [hgs]
  refine .bind (ends_rejectIf _ _) fun _ => .bind (ends_warnIf _ _) fun _ => .bind_ok rfl ?_
  exact .bind (ends_routerGroups t gs) fun _ => ends_recommendIf _ _

theorem ends_transformation (h : t.type = "Router" → HasGroups t) : Ends (transformation t) := by
  refine .ite (.modify _) (.bind (ends_warnIf _ _) fun _ => ?_)
  split
  · exact ends_joiner t
  · exact ends_aggregator t
  · exact ends_lookup t
  · exact ends_lookup t
  · exact ends_router (h ‹_›)
  · exact ends_warnIf _ _
  · exact .pure _

theorem ends_transformations (h : ∀ t ∈ ts, t.type = "Router" → HasGroups t) : Ends (transformations ts) := by
  induction ts with
  | nil => exact .pure _
  | cons t ts ih =>
    exact .bind (ends_transformation (h t List.mem_cons_self)) fun _ =>
      ih fun u hu => h u (List.mem_cons_of_mem t hu)

theorem review_ends (h : Mapping.ofBytes content = .ok m) : Ends (mapping m) := by
  refine .bind (.set _) fun _ => .bind ?_ fun _ => .bind ?_ fun _ => .bind ?_ fun _ => ?_
  · exact .bind (ends_rejectIf _ _) fun _ => .bind (ends_rejectIf _ _) fun _ => ends_warnIf _ _
  · exact ends_transformations fun t ht => ofBytes_groups h ht
  · exact .bind (ends_rejectIf _ _) fun _ => ends_warnAll _
  · exact .bind (ends_warnAll _) fun _ => ends_recommendIf _ _

end Review

end MappingFlow
