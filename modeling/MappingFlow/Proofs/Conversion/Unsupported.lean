/-
  MappingFlow.Proofs.Conversion.Unsupported — every transformation becomes a step or is
  reported.

  The rules decide: a transformation whose type they know becomes a step of its name and
  of the type they give, in its place, and one whose type they do not know is warned
  about, in its place. A step may remark on other things in between, and so may the casing
  of the columns, but nothing else is worded like such a report (`Noted`).
-/

import MappingFlow.Proofs.Conversion.Steps
import MappingFlow.Proofs.Text.Splitting
import MappingFlow.Proofs.Text.Words

namespace MappingFlow.Conversion

open List

variable {r : Rules} {m : Mapping} {before reports : List String}

/-! ## Reports -/

/-- Worded like the warning that a transformation is left out. -/
def isReport (w : String) : Bool :=
  "Transformación '".toList.isPrefixOf w.toList && Text.contains "' no soportada: ".toList w.toList

theorem isReport_leftOut (t) : isReport (leftOut t) = true := by
  -- For any texts around the type and the name, so that these here are not taken apart.
  have hworded : ∀ a b : String, (a.toList.isPrefixOf (a ++ t.type ++ b ++ t.name).toList &&
      Text.contains b.toList (a ++ t.type ++ b ++ t.name).toList) = true := by
    intro a b
    rw [Bool.and_eq_true, Text.contains_iff]
    exact ⟨by simp, a.toList ++ t.type.toList, t.name.toList, by simp⟩
  exact hworded _ _

theorem IsRemark.not_report (h : IsRemark w) : isReport w = false := by
  obtain ⟨c, hc, hne⟩ := h
  obtain ⟨rest, hw⟩ := head?_eq_some_iff.mp hc
  have hfirst : "Transformación '".toList = 'T' :: "ransformación '".toList := by decide
  rw [isReport, hw, hfirst, Text.isPrefixOf_cons_of_ne hne, Bool.false_and]

/-- Since then these reports were added, in this order, among other warnings. -/
def Noted (before reports : List String) (s : State) : Prop :=
  ∃ added, s.warnings = before ++ added ∧ added.filter isReport = reports

theorem Noted.add (h : Noted before reports s) (w) :
    Noted before (reports ++ [w].filter isReport) { s with warnings := s.warnings ++ [w] } := by
  obtain ⟨added, hwarnings, hreports⟩ := h
  exact ⟨added ++ [w], by rw [hwarnings, append_assoc], by rw [filter_append, hreports]⟩

theorem stableLearning_noted : StableLearning (Noted before reports) where
  remark s w hw h := by simpa [hw.not_report] using h.add w
  error _ _ h := h
  learn _ _ h := h

/-! ## Transformations -/

/-- The transformations whose type the rules do not know. -/
def unsupported (r : Rules) (ts : List Transformation) : List Transformation :=
  ts.filter fun t => (r.kind? t.type).isNone

theorem Converted.noted (h : Converted r ts s vs u) (hs : Noted before reports s) :
    Noted before (reports ++ (unsupported r ts).map leftOut) u := by
  induction h generalizing reports with
  | nil => simpa [unsupported] using hs
  | step hkind hstep _ ih =>
    simpa [unsupported, hkind] using ih (stableLearning_noted.composed composed_convertStep _ _ _ hs hstep)
  | leave hkind _ ih => simpa [unsupported, hkind, isReport_leftOut] using ih (hs.add (leftOut _))

theorem convertParts_noted : Ensures (Noted before []) (convertParts r m) fun _ =>
      Noted before ((unsupported r m.transformations).map leftOut) := by
  intro s p u hs hrun
  obtain ⟨s₁, s₂, -, hkeep, hsteps, hsinks⟩ := runs_convertParts hrun
  have hnoted := hsteps.noted (hkeep _ stableLearning_noted.toStable hs)
  exact stableLearning_noted.composed (composed_convertEndpoints _ _) _ _ _ hnoted hsinks

/-! ## Mappings -/

theorem begun_noted (m) (s : State) : Noted s.warnings [] (begun m s) :=
  stableLearning_noted.noteColumns _ ⟨[], (append_nil _).symm, rfl⟩

/-- The steps of a structure with their names and types. -/
def namedSteps (plan : Value) : List (Value × Value) :=
  (plan.memberList "transformations").map fun step => (step.member "name", step.member "type")

theorem namedSteps_of_planOf (h : PlanOf r m plan sources ps sinks) :
    namedSteps plan = m.transformations.filterMap fun t => (r.kind? t.type).map fun type => (.text t.name, type) := by
  obtain ⟨fs, rfl, -, hsteps, -⟩ := h.parts
  have hlist : (Value.object fs).memberList "transformations" = ps.steps := by
    rw [Value.memberList, member_of_get? hsteps]
  -- A step and its transformation are paired, and the transformations are those that the rules know.
  have hpairs : ∀ p ∈ ps, r.kind? p.1.type = some ((Value.object p.2).member "type") ∧
      (Value.object p.2).member "name" = .text p.1.name := by
    intro p hp
    obtain ⟨type, hkind, hstep⟩ := h.steps p hp
    rw [member_of_get? hstep.type, member_of_get? hstep.name]
    exact ⟨hkind, rfl⟩
  have hknown : (ps.map (·.1)).filterMap (fun t => (r.kind? t.type).map fun type => (Value.text t.name, type)) =
      m.transformations.filterMap fun t => (r.kind? t.type).map fun type => (Value.text t.name, type) := by
    rw [h.known, Mapping.known, filterMap_filter]
    refine filterMap_congr fun t _ => ?_
    cases r.kind? t.type <;> rfl
  rw [namedSteps, hlist, Paired.steps, ← hknown, filterMap_map, map_map]
  symm
  rw [← filterMap_eq_map]
  refine filterMap_congr fun p hp => ?_
  simp only [Function.comp_apply, (hpairs p hp).1, (hpairs p hp).2, Option.map_some]

/-- The steps are the transformations of known types, in order, under their names and of the types that the rules
    give; and among the warnings that are added, the reports are those on the others, in order and one for each. -/
theorem convertMapping_keeps_or_reports {s u : State} {plan : Value} (h : Runs (convertMapping r m) s plan u) :
    namedSteps plan = m.transformations.filterMap (fun t => (r.kind? t.type).map fun type => (.text t.name, type)) ∧
      listed "warnings" plan = u.warnings ∧
      ∃ added, u.warnings = s.warnings ++ added ∧
        added.filter isReport = (unsupported r m.transformations).map leftOut := by
  obtain ⟨sources, ps, sinks, hplan⟩ := convertMapping_plan h
  obtain ⟨p, hparts, rfl⟩ := runs_convertMapping h
  exact ⟨namedSteps_of_planOf hplan, (listed_planOf m p u).1, convertParts_noted _ _ _ (begun_noted m s) hparts⟩

/-- A mapping between the kinds: two types that are not known, a sorter and a joiner that are remarked on,
    and a column in two casings. -/
def patchwork : Mapping :=
  ⟨"M_PATCHWORK", none, "1",
    [⟨"S", "Oracle", none, [⟨"ID", "number", 10, 0, none, none⟩, ⟨"Id", "number", 10, 0, none, none⟩], []⟩], [],
    [⟨"NRM", "Normalizer", none, [], []⟩, ⟨"SRT", "Sorter", none, [], [("case_sensitive", .bool false)]⟩,
      ⟨"UPD", "Update Strategy", none, [], []⟩, ⟨"FLT", "Filter", none, [], [("filter_condition", .text "ID")]⟩],
    [], []⟩

theorem patchwork_kept_or_reported : ∃ plan u, Runs (convertMapping .standard patchwork) .start plan u ∧
    namedSteps plan = [(.text "SRT", .text "Sort"), (.text "FLT", .text "Filter")] ∧
    u.warnings.length = 4 ∧ u.warnings.filter isReport =
      ["Transformación 'Normalizer' no soportada: NRM", "Transformación 'Update Strategy' no soportada: UPD"] := by
  obtain ⟨plan, hrun⟩ : ∃ plan, Runs (convertMapping .standard patchwork) .start plan _ := Runs.of_isOk (by decide +kernel)
  obtain ⟨hsteps, -, added, hadded, hreports⟩ := convertMapping_keeps_or_reports hrun
  refine ⟨plan, _, hrun, hsteps, by decide +kernel, ?_⟩
  rw [hadded]
  exact hreports

end MappingFlow.Conversion
