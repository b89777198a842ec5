/-
  MappingFlow.Proofs.Dataflow.Supply — every accepted data flow is fed by its sources.

  What a step or a sink depends on is supplied if it is a source, or a step that depends
  on something and on nothing that is not supplied in turn by the steps before it. Names
  may occur more than once; a dependency is on any step that has the name.
-/

import MappingFlow.Proofs.Dataflow.Check

namespace MappingFlow.Dataflow

open Value

variable {sources steps : List Value} {v a : Value}

/-- The names of what a step or a sink depends on. -/
def activities (v : Value) : List Value := (v.memberList "dependsOn").map (·.member "activity")

/-- A name leads back to the sources through the steps given, each time to an earlier one. -/
inductive Supplied (sources : List Value) : List Value → Value → Prop
  | source {before : List Value} {a : Value} (h : a.inSet (givenNames sources) = .ok true) : Supplied sources before a
  | step {earlier later : List Value} {t a : Value} (hname : a.inSet (givenNames [t]) = .ok true) (hsome : activities t ≠ [])
      (hall : ∀ b ∈ activities t, Supplied sources earlier b) : Supplied sources (earlier ++ t :: later) a

/-- It depends on something, and on nothing but what is supplied. -/
def Fed (sources before : List Value) (v : Value) : Prop :=
  activities v ≠ [] ∧ ∀ a ∈ activities v, Supplied sources before a

theorem activities_of_depends (h : ∃ w, v.field "dependsOn" = .ok w ∧ AreDependencies steps w) :
    activities v ≠ [] ∧ ∀ a ∈ activities v, a.inSet steps = .ok true := by
  obtain ⟨w, hw, ds, rfl, hsome, hall⟩ := h
  have hlist : v.memberList "dependsOn" = ds := by rw [memberList, Conversion.member_of_field hw]
  rw [activities, hlist]
  refine ⟨mt List.map_eq_nil_iff.mp hsome, fun a ha => ?_⟩
  obtain ⟨d, hd, rfl⟩ := List.mem_map.mp ha
  obtain ⟨⟨activity, hactivity, hin⟩, -⟩ := hall d hd
  rwa [Conversion.member_of_field hactivity]

theorem inSet_append : a.inSet (xs ++ ys) = .ok true ↔ a.inSet xs = .ok true ∨ a.inSet ys = .ok true := by
  unfold inSet
  cases a.requireHashable with
  | error e => exact iff_of_false nofun (by rintro (h | h) <;> cases h)
  | ok u =>
    change Except.ok ((xs ++ ys).any a.same) = .ok true ↔
      Except.ok (xs.any a.same) = .ok true ∨ Except.ok (ys.any a.same) = .ok true
    simp

theorem exists_of_inSet_givenNames (h : a.inSet (givenNames ts) = .ok true) :
    ∃ t ∈ ts, a.inSet (givenNames [t]) = .ok true := by
  induction ts with
  | nil =>
    obtain ⟨_, -, h⟩ := bind_eq_ok.mp h
    cases h
  | cons t ts ih =>
    rcases inSet_append.mp (show a.inSet (givenNames [t] ++ givenNames ts) = .ok true from h) with h | h
    · exact ⟨t, List.mem_cons_self, h⟩
    · obtain ⟨u, hu, h⟩ := ih h
      exact ⟨u, List.mem_cons_of_mem t hu, h⟩

/-- By induction on the number of steps: whatever a step depends on stands before it. -/
theorem supplied_of_inSet (hsteps : EachAfter (fun before => IsStep (givenNames sources ++ givenNames before)) ts)
    (ha : a.inSet (givenNames sources ++ givenNames ts) = .ok true) : Supplied sources ts a := by
  induction hlength : ts.length using Nat.strongRecOn generalizing ts a with
  | ind n ih =>
    rcases inSet_append.mp ha with ha | ha
    · exact .source ha
    · obtain ⟨t, ht, hname⟩ := exists_of_inSet_givenNames ha
      obtain ⟨earlier, later, rfl⟩ := List.append_of_mem ht
      obtain ⟨hsome, hall⟩ := activities_of_depends (hsteps earlier t later rfl).depends
      have hshorter : earlier.length < n := by
        rw [← hlength, List.length_append, List.length_cons]
        omega
      have hearlier := (EachAfter.append_iff.mp hsteps).1
      exact .step hname hsome fun b hb => ih earlier.length hshorter hearlier (hall b hb) rfl

/-- A document that passes the check is a flow in which every step depends on something, each dependency leads back to
the sources through steps before it, and the same holds of every sink. -/
theorem fed_of_accepts {f : Findings} {d : Value} (h : Check.Accepts f d) :
    ∃ sources steps sinks, IsFlow d sources steps sinks ∧ EachAfter (Fed sources) steps ∧
      ∀ s ∈ sinks, Fed sources steps s := by
  obtain ⟨sources, steps, sinks, hflow, -, hsteps, hsinks⟩ := Check.accepts_iff.mp h
  refine ⟨sources, steps, sinks, hflow, fun before t after hsplit => ?_, fun s hs => ?_⟩
  · obtain ⟨hsome, hall⟩ := activities_of_depends (hsteps before t after hsplit).depends
    subst hsplit
    exact ⟨hsome, fun a ha => supplied_of_inSet (EachAfter.append_iff.mp hsteps).1 (hall a ha)⟩
  · obtain ⟨hsome, hall⟩ := activities_of_depends (hsinks s hs).depends
    exact ⟨hsome, fun a ha => supplied_of_inSet hsteps (hall a ha)⟩

theorem fed_of_accepts_twoFilters : Check.Accepts .none twoFilters ∧ ∃ sources steps sinks,
    IsFlow twoFilters sources steps sinks ∧ EachAfter (Fed sources) steps ∧ ∀ s ∈ sinks, Fed sources steps s :=
  ⟨twoFilters_accepted, fed_of_accepts twoFilters_accepted⟩

end MappingFlow.Dataflow
