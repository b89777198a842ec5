/-
  MappingFlow.Proofs.Generation.Sorting — when steps can be sorted, whatever they are.

  A step refers to the names that its inputs give; an input that is missing or empty gives
  none (`references`). Steps are `Sortable` if their names are distinct and no step leads
  back to itself along the references inside the list. An order found puts every step
  behind what it refers to, so no references can lead back (`StandBehind.exists_refersUp`);
  and without a way back a name can be ranked by the number of names that lead to it
  (`exists_refersUp`), so there is an order. Steps that are not sortable stay as they are,
  and this is noted.
-/

import MappingFlow.Generation.Scripted
import MappingFlow.Proofs.Conversion.Steps
import MappingFlow.Proofs.Dataflow.Order
import MappingFlow.Proofs.Document.Access

namespace MappingFlow

open Dataflow Order Generation Scripted
open List

variable {step : Value} {ordered : List Value}

/-! ## References -/

/-- The members of a step that name another one. -/
def inputKeys : List String := ["mainInput", "leftInput", "rightInput"]

/-- The names that a step refers to. An input that is missing or empty is no reference. -/
def references (step : Value) : List Value := (inputKeys.map step.member).filter (·.isPresent)

def namesOf (steps : List Value) : List Value := steps.map (·.member "name")

/-- A step of the list is called `b` and refers to `a`, which is a name of the list too. -/
def Refers (steps : List Value) (a b : Value) : Prop :=
  a ∈ namesOf steps ∧ ∃ step ∈ steps, step.member "name" = b ∧ a ∈ references step

/-- References lead from the one name to the other. -/
abbrev Leads (steps : List Value) : Value → Value → Prop := Relation.TransGen (Refers steps)

/-- Every step has a text for a name. -/
def AreNamed (steps : List Value) : Prop := ∀ step ∈ steps, ∃ s, step.field "name" = .ok (.text s)

def HasKeys (step : Value) : Prop := ∀ v ∈ references step, v.requireHashable = .ok ()

theorem hasKeys_of_texts (h : ∀ v ∈ references step, v.kind = .text) : HasKeys step := by
  intro v hv
  have htext := h v hv
  cases v with
  | text s => rfl
  | _ => cases htext

/-! ## Nodes of steps -/

/-- A value that is used as a key. -/
def asKey (v : Value) : Except Fault Value := do
  v.requireHashable
  return v

theorem asKey_ok (h : v.requireHashable = .ok ()) : asKey v = .ok v := by
  rw [asKey, h]
  rfl

theorem needOf_eq (fs : Fields) (key : String) :
    needOf (.object fs) key = ([(Value.object fs).member key].filter (·.isPresent)).mapM asKey := by
  cases hget : fs.get? key with
  | none =>
    have hkey : (Value.object fs).holdsKey key = .ok (fs.contains key) := rfl
    rw [needOf, hkey, Fields.contains, Value.member, Fields.getD, hget]
    rfl
  | some v =>
    have hfield : (Value.object fs).field key = .ok v := Value.field_eq_ok_iff.mpr ⟨fs, rfl, hget⟩
    rw [needOf, Value.holdsKey_of_field hfield, hfield, Conversion.member_of_get? hget]
    change (if v.isPresent = true then v.requireHashable >>= fun _ => .ok [v] else .ok []) = _
    cases hp : v.isPresent with
    | false => rw [filter_cons_of_neg (by simp [hp])]; rfl
    | true =>
      rw [filter_cons_of_pos hp, filter_nil, mapM_cons, asKey]
      cases v.requireHashable <;> rfl

/-- The node of a step: its name and what it refers to. -/
def nodeIn (step : Value) : Node Value := ⟨step.member "name", references step, step⟩

theorem references_object (fs) : references (.object fs) =
    [(Value.object fs).member "mainInput"].filter (·.isPresent) ++
      [(Value.object fs).member "leftInput"].filter (·.isPresent) ++
      [(Value.object fs).member "rightInput"].filter (·.isPresent) := by
  rw [← filter_append, ← filter_append]
  rfl

theorem nodeOf_eq (hname : step.field "name" = .ok (.text s)) :
    nodeOf step = (references step).mapM asKey >>= fun vs => .ok ⟨step.member "name", vs, step⟩ := by
  obtain ⟨fs, rfl, hget⟩ := Value.field_eq_ok_iff.mp hname
  rw [nodeOf, hname, needOf_eq, needOf_eq, needOf_eq, references_object, mapM_append, mapM_append,
    Conversion.member_of_get? hget]
  simp only [bind_assoc]
  rfl

theorem nodeOf_ok (hname : step.field "name" = .ok (.text s)) (hkeys : HasKeys step) :
    nodeOf step = .ok (nodeIn step) := by
  have hall : (references step).mapM asKey = .ok (references step) :=
    mapM_eq_ok_iff.mpr (forall₂_same.mpr fun v hv => asKey_ok (hkeys v hv))
  rw [nodeOf_eq hname, hall]
  rfl

variable {steps : List Value}

/-- The steps in the order found, and whether there is one. -/
def sortedOr (steps : List Value) : Option (List (Node Value)) → List Value × Bool
  | some ns => (ns.map (·.step), true)
  | none => (steps, false)

theorem sortSteps_of_named (hnamed : AreNamed steps) :
    sortSteps steps = steps.mapM nodeOf >>= fun ns => (arrange ns).map (sortedOr steps) := by
  rw [sortSteps, forM_requireName hnamed]
  change (steps.mapM nodeOf >>= fun ns => arrange ns >>= _) = _
  refine congrArg _ (funext fun ns => ?_)
  rcases arrange ns with e | _ | ns <;> rfl

theorem sortSteps_hashed (hnamed : AreNamed steps) (hkeys : ∀ step ∈ steps, HasKeys step) :
    sortSteps steps = (arrange (steps.map nodeIn)).map (sortedOr steps) := by
  have hall : steps.mapM nodeOf = .ok (steps.map nodeIn) := by
    refine mapM_eq_ok_iff.mpr (forall₂_map_right_iff.mpr (forall₂_same.mpr fun step hstep => ?_))
    obtain ⟨s, hs⟩ := hnamed step hstep
    exact nodeOf_ok hs (hkeys step hstep)
  rw [sortSteps_of_named hnamed, hall]
  rfl

theorem textNamed_nodes (hnamed : AreNamed steps) : TextNamed (steps.map nodeIn) := by
  intro n hn
  obtain ⟨step, hstep, rfl⟩ := mem_map.mp hn
  obtain ⟨s, hs⟩ := hnamed step hstep
  exact ⟨s, Conversion.member_of_field hs⟩

theorem names_map_nodeIn : names (steps.map nodeIn) = namesOf steps := map_map

theorem AreNamed.texts (hnamed : AreNamed steps) : ∀ w ∈ namesOf steps, ∃ s, w = .text s :=
  names_map_nodeIn ▸ (textNamed_nodes hnamed).names

def stepNamed (name : String) (inputs : Fields) : Value := .object (("name", .text name) :: inputs)

end MappingFlow
