/-
  MappingFlow.Proofs.Dataflow.Structure — what the check before writing accepts.

  `Linked` says it without the check: the parts of a flow are where they belong, and each
  dependency names a source or a step that may be depended on. It asks for less than
  `Deployable`, so a flow that the stricter check accepts is also accepted here.
-/

import MappingFlow.Dataflow.Structure
import MappingFlow.Proofs.Dataflow.Check

namespace MappingFlow.Dataflow

open Value

namespace Structure

variable {v d : Value} {steps : List Value}

/-- Dependencies that each name one of the steps. There may be none. -/
def Depends (steps : List Value) (v : Value) : Prop :=
  ∃ w ds, v.field "dependsOn" = .ok w ∧ w.items = .ok ds ∧
    ∀ d ∈ ds, ∃ activity, d.field "activity" = .ok activity ∧ activity.inSet steps = .ok true

/-- A step that depends on nothing but the steps given, and can be depended on in turn. -/
structure IsLinked (steps : List Value) (t : Value) : Prop where
  depends : Depends steps t
  named : ∃ name, Named t name

theorem exists_unit {p : Unit → Prop} : (∃ u, p u) ↔ p () := ⟨fun ⟨_, h⟩ => h, fun h => ⟨(), h⟩⟩

theorem require_eq_ok_iff (keys) : require v fault keys = .ok () ↔ ∀ key ∈ keys, v.holdsKey key = .ok true := by
  induction keys with
  | nil => exact iff_of_true rfl (by simp)
  | cons key keys ih => simp [require, bind_eq_ok, ih]

theorem dependencies_eq_ok_iff (ds) : dependencies steps fault ds = .ok () ↔
      ∀ d ∈ ds, ∃ activity, d.field "activity" = .ok activity ∧ activity.inSet steps = .ok true := by
  induction ds with
  | nil => exact iff_of_true rfl (by simp)
  | cons d ds ih => simp [dependencies, bind_eq_ok, ih, ← and_assoc]

theorem dependsOn_eq_ok_iff : dependsOn steps v missing dangling = .ok () ↔ Depends steps v := by
  simpa [dependsOn, Depends, bind_eq_ok, dependencies_eq_ok_iff] using fun _ hw _ _ _ => holdsKey_of_field hw

theorem sourceNames_eq_ok_iff (ss) : sourceNames ss = .ok a ↔ (∀ s ∈ ss, ∃ name, Named s name) ∧ givenNames ss = a := by
  induction ss generalizing a with
  | nil => simp [sourceNames]
  | cons s ss ih =>
    simp only [sourceNames, bind_eq_ok, ih, List.forall_mem_cons, exists_unit]
    constructor
    · rintro ⟨name, hname, hkey, _, ⟨hnamed, rfl⟩, h⟩
      cases h
      exact ⟨⟨⟨name, hname, hkey⟩, hnamed⟩, givenNames_cons hname⟩
    · rintro ⟨⟨⟨name, hname, hkey⟩, hnamed⟩, rfl⟩
      refine ⟨name, hname, hkey, _, ⟨hnamed, rfl⟩, ?_⟩
      rw [givenNames_cons hname]
      rfl

theorem transformations_eq_ok_iff (ts) : transformations steps ts = .ok a ↔
    EachAfter (fun before => IsLinked (steps ++ givenNames before)) ts ∧ steps ++ givenNames ts = a := by
  induction ts generalizing steps with
  | nil => simp [transformations, EachAfter.nil]
  | cons t ts ih =>
    simp only [transformations, bind_eq_ok, dependsOn_eq_ok_iff, ih, eachAfter_givenNames_cons, exists_unit]
    constructor
    · rintro ⟨hdepends, name, hname, hkey, hrest, rfl⟩
      rw [givenNames_cons hname, givenNames_cons hname, givenNames_nil]
      exact ⟨⟨⟨hdepends, name, hname, hkey⟩, hrest⟩, List.append_cons ..⟩
    · rintro ⟨⟨⟨hdepends, name, hname, hkey⟩, hrest⟩, rfl⟩
      rw [givenNames_cons hname, givenNames_nil] at hrest
      exact ⟨hdepends, name, hname, hkey, hrest, by rw [givenNames_cons hname, ← List.append_cons]⟩

theorem sinks_eq_ok_iff (ss) : sinks steps ss = .ok () ↔ ∀ s ∈ ss, Depends steps s := by
  induction ss with
  | nil => exact iff_of_true rfl (by simp)
  | cons s ss ih => simp only [sinks, bind_eq_ok, dependsOn_eq_ok_iff, ih, List.forall_mem_cons, exists_unit]

/-- The parts of a flow where they belong, and no dependency on what is not there. -/
def Linked (d : Value) : Prop :=
  ∃ p q, (∃ name, d.field "name" = .ok name) ∧ d.field "type" = .ok (.text Check.dataflowType) ∧
    d.field "properties" = .ok p ∧ p.field "type" = .ok (.text Check.mappingType) ∧
    p.field "typeProperties" = .ok q ∧ (∃ lines, q.field "scriptLines" = .ok lines) ∧
    ∃ v w x sources steps sinks, q.field "sources" = .ok v ∧ v.items = .ok sources ∧
      q.field "transformations" = .ok w ∧ w.items = .ok steps ∧ q.field "sinks" = .ok x ∧ x.items = .ok sinks ∧
      (∀ s ∈ sources, ∃ name, Named s name) ∧
      EachAfter (fun before => IsLinked (givenNames sources ++ givenNames before)) steps ∧
      ∀ s ∈ sinks, Depends (givenNames sources ++ givenNames steps) s

/-- What is not the expected text stops the check. -/
theorem expect_eq_ok_iff :
    (if (!v.isText s) = true then Except.error f >>= k else k ()) = .ok () ↔ v = .text s ∧ k () = .ok () := by
  rw [← isText_iff]
  cases v.isText s with
  | false => exact iff_of_false nofun nofun
  | true => simp

theorem check_eq_ok_iff : check d = .ok () ↔ Linked d := by
  simp only [check, bind_eq_ok, require_eq_ok_iff, expect_eq_ok_iff, sourceNames_eq_ok_iff, transformations_eq_ok_iff,
    sinks_eq_ok_iff, exists_unit]
  constructor
  · rintro ⟨hkeys, _, htype, rfl, p, hp, -, _, hkind, rfl, q, hq, hlists, v, hv, sources, hsources, _, ⟨hnamed, rfl⟩, w, hw,
      steps, hsteps, _, ⟨hflow, rfl⟩, x, hx, sinks, hsinks, hends⟩
    exact ⟨p, q, (holdsKey_iff (kind_of_field htype)).mp (hkeys "name" (by simp)), htype, hp, hkind, hq,
      (holdsKey_iff (kind_of_field hv)).mp (hlists "scriptLines" (by simp)), v, w, x, sources, steps, sinks, hv, hsources,
      hw, hsteps, hx, hsinks, hnamed, hflow, hends⟩
  · rintro ⟨p, q, ⟨name, hname⟩, htype, hp, hkind, hq, ⟨lines, hlines⟩, v, w, x, sources, steps, sinks, hv, hsources, hw,
      hsteps, hx, hsinks, hnamed, hflow, hends⟩
    refine ⟨?_, _, htype, rfl, p, hp, ?_, _, hkind, rfl, q, hq, ?_, v, hv, sources, hsources, _, ⟨hnamed, rfl⟩, w, hw,
      steps, hsteps, _, ⟨hflow, rfl⟩, x, hx, sinks, hsinks, hends⟩
    · simp [holdsKey_of_field hname, holdsKey_of_field hp, holdsKey_of_field htype]
    · simp [holdsKey_of_field hkind, holdsKey_of_field hq]
    · simp [holdsKey_of_field hv, holdsKey_of_field hw, holdsKey_of_field hx, holdsKey_of_field hlines]

end Structure

theorem Structure.Depends.of_dependencies {steps : List Value}
    (h : ∃ w, v.field "dependsOn" = .ok w ∧ AreDependencies steps w) : Structure.Depends steps v := by
  obtain ⟨w, hw, ds, rfl, -, hall⟩ := h
  exact ⟨_, ds, hw, rfl, fun d hd => (hall d hd).1⟩

theorem Deployable.linked (h : Deployable d) : Structure.Linked d := by
  obtain ⟨sources, steps, sinks, hflow, hsources, hsteps, hsinks⟩ := h
  obtain ⟨⟨name, hname, -⟩, htype, p, q, hp, hmapping, hq, hss, hts, hks, hlines⟩ := hflow
  refine ⟨p, q, ⟨name, hname⟩, htype, hp, hmapping, hq, hlines, _, _, _, sources, steps, sinks, hss, rfl, hts, rfl, hks, rfl,
    fun s hs => (hsources s hs).named, fun before t after hsplit => ?_, fun s hs => .of_dependencies (hsinks s hs).depends⟩
  have hstep := hsteps before t after hsplit
  exact ⟨.of_dependencies hstep.depends, hstep.named⟩

/-- A document that passes the check also passes the one before writing. -/
theorem structure_of_accepts {f : Findings} {d : Value} (h : Check.Accepts f d) : Structure.check d = .ok () :=
  Structure.check_eq_ok_iff.mpr (Check.accepts_iff.mp h).linked

theorem structure_of_accepts_twoFilters : Check.Accepts .none twoFilters ∧ Structure.check twoFilters = .ok () :=
  ⟨twoFilters_accepted, structure_of_accepts twoFilters_accepted⟩

end MappingFlow.Dataflow
