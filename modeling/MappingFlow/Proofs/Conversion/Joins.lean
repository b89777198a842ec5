/-
  MappingFlow.Proofs.Conversion.Joins — what the two inputs of a converted join are.

  A join that two instances feed reads two streams that are not the same, and each of them
  comes to it over a connector, or is a source behind a source qualifier that feeds it
  (`Mapping.Supplies`). A join with fewer feeders has no right input, and the conversion
  reports an error with its name (`Reported`), which no later step takes back.
-/

import Mathlib.Data.List.Forall2
import MappingFlow.Proofs.Conversion.Steps

namespace MappingFlow

open Conversion
open List

/-! ## Distinct feeders -/

namespace Conversion

theorem mem_distinct_iff {as : List String} : u ∈ distinct as ↔ u ∈ as := by
  induction as with
  | nil => rfl
  | cons a as ih =>
    by_cases h : u = a <;> simp [distinct, h, ih]

theorem nodup_distinct (as : List String) : (distinct as).Nodup := by
  induction as with
  | nil => exact nodup_nil
  | cons a as ih => exact nodup_cons.mpr ⟨by simp, ih.filter _⟩

theorem ne_of_distinct {left right : String} (hd : distinct as = left :: right :: rest) : left ≠ right := by
  rintro rfl
  have := nodup_distinct as
  simp [hd] at this

end Conversion

namespace Mapping

/-- A connector leads from one instance to the other. -/
def Feeds (m : Mapping) (u name : String) : Prop := ∃ c ∈ m.connectors, c.source = u ∧ c.target = name

/-- At least two distinct instances feed it. -/
def FedTwice (m : Mapping) (name : String) : Prop := ∃ u v, u ≠ v ∧ m.Feeds u name ∧ m.Feeds v name

/-- The instance feeds the other, or is a source behind a source qualifier that does. -/
def Supplies (m : Mapping) (u name : String) : Prop :=
  m.Feeds u name ∨ (∃ e ∈ m.sources, e.name = u) ∧
    ∃ q ∈ m.transformations, q.type = "Source Qualifier" ∧ m.Feeds u q.name ∧ m.Feeds q.name name

variable {m : Mapping} {u name : String}

theorem mem_feeders_iff : u ∈ m.feeders name ↔ m.Feeds u name := by
  simp [feeders, Feeds, and_comm, and_assoc]

/-- The first two of the distinct feeders differ, so these are as many as the feeders themselves say. -/
theorem fedTwice_iff : m.FedTwice name ↔ ∃ left right rest, distinct (m.feeders name) = left :: right :: rest := by
  have hmem : ∀ u, u ∈ distinct (m.feeders name) ↔ m.Feeds u name := fun u =>
    mem_distinct_iff.trans mem_feeders_iff
  have hnodup := nodup_distinct (m.feeders name)
  unfold FedTwice
  simp only [← hmem]
  revert hnodup
  rcases distinct (m.feeders name) with _ | ⟨left, _ | ⟨right, rest⟩⟩
  · simp
  · intro _
    constructor
    · rintro ⟨u, v, hne, hu, hv⟩
      exact absurd ((mem_singleton.mp hu).trans (mem_singleton.mp hv).symm) hne
    · rintro ⟨_, _, _, h⟩
      cases h
  · intro hnodup
    refine ⟨fun _ => ⟨left, right, rest, rfl⟩, fun _ => ⟨left, right, ?_, by simp, by simp⟩⟩
    rintro rfl
    simp at hnodup

theorem stream_supplies (h : m.Feeds u name) : m.Supplies (m.stream u) name := by
  unfold stream resolve
  split
  · rename_i t ht
    split
    · rename_i hq
      rw [lookup_feedsOf]
      cases hs : (m.feeders u).find? fun i => m.sources.any (·.name == i) with
      | none => exact .inl h
      | some i =>
        have hname : t.name = u := by simpa using find?_some ht
        refine .inr ⟨by simpa using find?_some hs, t, mem_of_find?_eq_some ht, hq, ?_, hname ▸ h⟩
        rw [hname]
        exact mem_feeders_iff.mp (mem_of_find?_eq_some hs)
    · exact .inl h
  · exact .inl h

/-- Two streams that would be one are left to the instances they come from. -/
theorem joinInputs_of_fedTwice (h : m.FedTwice name) :
    ∃ l r, m.joinInputs name = (some l, some r) ∧ l ≠ r ∧ m.Supplies l name ∧ m.Supplies r name := by
  obtain ⟨left, right, rest, hd⟩ := fedTwice_iff.mp h
  have hl : m.Feeds left name := mem_feeders_iff.mp (mem_distinct_iff.mp (hd ▸ mem_cons_self ..))
  have hr : m.Feeds right name :=
    mem_feeders_iff.mp (mem_distinct_iff.mp (hd ▸ mem_cons_of_mem _ (.head _)))
  have hne := ne_of_distinct hd
  unfold joinInputs
  rw [hd]
  by_cases hs : m.stream left = m.stream right
  · exact ⟨left, right, if_pos ⟨hs, hne⟩, hne, .inl hl, .inl hr⟩
  · exact ⟨_, _, if_neg fun h => hs h.1, hs, stream_supplies hl, stream_supplies hr⟩

theorem joinInputs_of_not_fedTwice (h : ¬m.FedTwice name) : (m.joinInputs name).2 = none := by
  rw [fedTwice_iff] at h
  unfold joinInputs
  rcases hd : distinct (m.feeders name) with _ | ⟨left, _ | ⟨right, rest⟩⟩
  · rfl
  · rfl
  · exact absurd ⟨left, right, rest, hd⟩ h

end Mapping

/-! ## Reported errors -/

namespace Conversion

variable {r : Rules} {m : Mapping} {t : Transformation} {type : Value} {name : String} {α : Type}

/-- An error calls the join by its name. -/
def Names (name error : String) : Prop := ∃ before after, error = before ++ "Joiner '" ++ name ++ "'" ++ after

/-- An error with the name of the join has been noted. -/
def Reported (name : String) (s : State) : Prop := ∃ e ∈ s.errors, Names name e

/-- Noted errors stay. -/
theorem stableLearning_reported : StableLearning (Reported name) where
  remark _ _ _ h := h
  error _ _ h := h.imp fun _ he => he.imp_left (mem_append_left _)
  learn _ _ h := h

theorem reportError_reported (he : Names name e) (P : State → Prop) :
    Ensures P (reportError e) fun _ => Reported name :=
  .modify fun _ _ => ⟨e, by simp, he⟩

theorem joinInputs_reported (h : ¬m.FedTwice name) : Ensures (Begun m) (joinInputs name) fun _ => Reported name := by
  rw [Mapping.fedTwice_iff] at h
  refine .bind_get fun s hs => ?_
  simp only [feedsInto_begun hs]
  rcases hd : distinct (m.feeders name) with _ | ⟨left, _ | ⟨right, rest⟩⟩
  · refine .bind (reportError_reported ⟨"ERROR CRÍTICO: ", " no tiene inputs únicos conectados. Inputs raw: []", ?_⟩ _)
      fun _ => .pure fun _ => id
    simp [String.ext_iff]
  · refine .bind (resolveFeed_begun left) fun _ => ?_
    refine .bind (reportError_reported ⟨"ERROR: ", " tiene solo 1 input único conectado: " ++ left
      ++ ". Un Join requiere 2 inputs.", ?_⟩ _) fun _ => .pure fun _ => id
    simp [String.ext_iff]
  · exact absurd ⟨left, right, rest, hd⟩ h

theorem joinStep_reported (h : ¬m.FedTwice t.name) : Ensures (Begun m) (joinStep t type) fun _ => Reported t.name := by
  refine .bind Preserves.lift fun _ => .bind Preserves.lift fun _ => .bind (joinInputs_reported h) fun _ => ?_
  refine stableLearning_reported.composed (.ite ?_ ?_)
  · exact .bind (.remark (isRemark_joiner _ _)) fun _ => composed_warnWhen _ _ _ (isRemark_joiner _ _)
  · exact composed_warnWhen _ _ _ (isRemark_joiner _ _)

theorem convertStep_joiner (h : t.type = "Joiner") : convertStep r t type = joinStep t type := by
  simp [convertStep, h]

/-- A join that becomes a step and has no two inputs is reported. -/
def Short (r : Rules) (m : Mapping) (t : Transformation) : Prop :=
  t.type = "Joiner" ∧ (r.kind? t.type).isSome ∧ ¬m.FedTwice t.name

theorem Converted.keeps_reported (h : Converted r ts s vs u) (hs : Reported name s) : Reported name u := by
  induction h with
  | nil => exact hs
  | step _ hstep _ ih => exact ih (stableLearning_reported.composed composed_convertStep _ _ _ hs hstep)
  | leave _ _ ih => exact ih hs

theorem Converted.reported (h : Converted r ts s vs u) (hs : Begun m s) :
    ∀ t ∈ ts, Short r m t → Reported t.name u := by
  induction h with
  | nil => exact forall_mem_nil _
  | @step t type _ _ _ _ _ _ _ hstep hrest ih =>
    refine forall_mem_cons.mpr ⟨fun ⟨htype, _, hfed⟩ => ?_, ih (convertStep_steps _ _ _ hs hstep).2⟩
    rw [convertStep_joiner htype] at hstep
    exact hrest.keeps_reported (joinStep_reported hfed _ _ _ hs hstep)
  | leave hkind _ ih =>
    refine forall_mem_cons.mpr ⟨fun ⟨_, hknown, _⟩ => ?_, ih hs⟩
    rw [hkind] at hknown
    cases hknown

/-! ## Joins of a mapping -/

/-- What the step of a join says of its inputs, and what has been noted about them. -/
structure JoinOf (m : Mapping) (name : String) (noted : List String) (step : Value) : Prop where
  two : m.FedTwice name → ∃ l r, step.member "leftInput" = .text l ∧ step.member "rightInput" = .text r ∧ l ≠ r ∧
    m.Supplies l name ∧ m.Supplies r name
  short : ¬m.FedTwice name → step.member "rightInput" = .null ∧ ∃ e ∈ noted, Names name e

theorem StepOf.joinOf {noted : List String} (h : StepOf m t type fs) (htype : t.type = "Joiner")
    (hnoted : ¬m.FedTwice t.name → ∃ e ∈ noted, Names t.name e) : JoinOf m t.name noted (.object fs) := by
  have hjoiner : isJoiner t = true := by simp [isJoiner, htype]
  have hleft := h.left
  have hright := h.right
  rw [hjoiner, if_pos rfl] at hleft hright
  refine ⟨fun htwice => ?_, fun hshort => ⟨?_, hnoted hshort⟩⟩
  · obtain ⟨l, r, hinputs, hne, hl, hr⟩ := Mapping.joinInputs_of_fedTwice htwice
    rw [hinputs] at hleft hright
    exact ⟨l, r, member_of_get? hleft, member_of_get? hright, hne, hl, hr⟩
  · rw [Mapping.joinInputs_of_not_fedTwice hshort] at hright
    exact member_of_get? hright

/-- The errors of a fresh converter name every join that has no two inputs. -/
theorem convertParts_reported (h : Runs (convertParts r m) (begun m .start) p v) :
    ∀ t ∈ m.transformations, Short r m t → Reported t.name v := by
  intro t ht hshort
  obtain ⟨s₁, s₂, -, hkeep, hsteps, hsinks⟩ := runs_convertParts h
  have hreported := hsteps.reported (hkeep _ stableLearning_begun.toStable (begun_begun m .start)) t ht hshort
  exact stableLearning_reported.composed (composed_convertEndpoints _ _) _ _ _ hreported hsinks

/-- Every join of a converted mapping has two different inputs that are supplied to it, or no right input and an
    error of this conversion with its name. -/
theorem joins_never_read_themselves {s u : State} {plan : Value} (h : Runs (convertMapping r m) s plan u) :
    ∃ steps noted, plan.member "transformations" = .list steps ∧ listed "errors" plan = s.errors ++ noted ∧
      List.Forall₂ (fun t step => step.member "name" = .text t.name ∧ (t.type = "Joiner" → JoinOf m t.name noted step))
        (m.known r) steps := by
  obtain ⟨_, ps, _, hplan⟩ := convertMapping_plan h
  obtain ⟨fs, rfl, -, hsteps, -⟩ := hplan.parts
  obtain ⟨p, v, hparts, -, heq⟩ := convertMapping_fresh h
  refine ⟨ps.steps, v.errors, member_of_get? hsteps, by rw [heq, (listed_planOf m p _).2, State.behind], ?_⟩
  rw [← hplan.known, Paired.steps, List.forall₂_map_left_iff, List.forall₂_map_right_iff, List.forall₂_same]
  intro q hq
  obtain ⟨type, hkind, hstep⟩ := hplan.steps q hq
  have hmem : q.1 ∈ m.known r := hplan.known ▸ List.mem_map_of_mem hq
  refine ⟨member_of_get? hstep.name, fun htype => hstep.joinOf htype fun hshort => ?_⟩
  exact convertParts_reported hparts q.1 (List.mem_filter.mp hmem).1 ⟨htype, by simp [hkind], hshort⟩

/-- Two qualifiers of one source, the source beside one of them, and one of them twice. -/
def doublyQualified : Mapping :=
  ⟨"m", none, "1", [⟨"S", "Oracle", none, [], []⟩], [],
    [⟨"SQ1", "Source Qualifier", none, [], []⟩, ⟨"SQ2", "Source Qualifier", none, [], []⟩, ⟨"J1", "Joiner", none, [], []⟩,
      ⟨"J2", "Joiner", none, [], []⟩, ⟨"J3", "Joiner", none, [], []⟩],
    [⟨"S", "SQ1", [], []⟩, ⟨"S", "SQ2", [], []⟩, ⟨"SQ1", "J1", [], []⟩, ⟨"SQ2", "J1", [], []⟩, ⟨"S", "J2", [], []⟩,
      ⟨"SQ2", "J2", [], []⟩, ⟨"SQ1", "J3", [], []⟩, ⟨"SQ1", "J3", [], []⟩], []⟩

theorem doublyQualified_joins :
    doublyQualified.FedTwice "J1" ∧ doublyQualified.FedTwice "J2" ∧ ¬doublyQualified.FedTwice "J3" ∧
      ∃ plan u steps noted, Runs (convertMapping .standard doublyQualified) .start plan u ∧
        plan.member "transformations" = .list steps ∧ listed "errors" plan = noted ∧
        List.Forall₂ (fun t step => step.member "name" = .text t.name ∧
            (t.type = "Joiner" → JoinOf doublyQualified t.name noted step))
          (doublyQualified.known .standard) steps := by
  refine ⟨Mapping.fedTwice_iff.mpr ⟨"SQ1", "SQ2", [], by decide⟩, Mapping.fedTwice_iff.mpr ⟨"S", "SQ2", [], by decide⟩,
    fun h => ?_, ?_⟩
  · have hone : distinct (doublyQualified.feeders "J3") = ["SQ1"] := by decide
    obtain ⟨_, _, _, htwo⟩ := Mapping.fedTwice_iff.mp h
    rw [hone] at htwo
    cases htwo
  · obtain ⟨plan, hplan⟩ : ∃ plan, Runs (convertMapping .standard doublyQualified) .start plan _ :=
      Runs.of_isOk (by decide +kernel)
    obtain ⟨steps, noted, hsteps, hnoted, hjoins⟩ := joins_never_read_themselves hplan
    exact ⟨plan, _, steps, noted, hplan, hsteps, hnoted, hjoins⟩

end Conversion

end MappingFlow
