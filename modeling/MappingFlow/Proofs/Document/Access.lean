/-
  MappingFlow.Proofs.Document.Access — when the members of a value can be taken.

  Only an object has members to take (`field_eq_ok_iff`), but texts and lists can be
  asked for a key too. What can be taken is found when asked for; the other way round
  holds of objects only (`holdsKey_iff`).
-/

import MappingFlow.Document.Access

namespace MappingFlow.Value

variable {v w absent : Value} {key other : String}

theorem field_eq_ok_iff : v.field key = .ok w ↔ ∃ fs, v = .object fs ∧ Fields.get? fs key = some w := by
  cases v with
  | object fs =>
    simp only [field, object.injEq, exists_eq_left']
    cases Fields.get? fs key <;> simp
  | _ => simp [field]

theorem kind_of_field (h : v.field key = .ok w) : v.kind = .object := by
  obtain ⟨fs, rfl, -⟩ := field_eq_ok_iff.mp h
  rfl

theorem holdsKey_of_field (h : v.field key = .ok w) : v.holdsKey key = .ok true := by
  obtain ⟨fs, rfl, hget⟩ := field_eq_ok_iff.mp h
  change Except.ok (Fields.contains fs key) = .ok true
  rw [Fields.contains, hget, Option.isSome_some]

theorem fieldD_eq_of_field (h : v.field key = .ok w) : v.fieldD key absent = .ok w := by
  obtain ⟨fs, rfl, hget⟩ := field_eq_ok_iff.mp h
  rw [fieldD, Fields.getD, hget, Option.getD_some]

/-- Of an object, what it holds can be taken. -/
theorem holdsKey_iff (hkind : v.kind = .object) : v.holdsKey key = .ok true ↔ ∃ w, v.field key = .ok w := by
  refine ⟨fun h => ?_, fun ⟨w, hw⟩ => holdsKey_of_field hw⟩
  cases v with
  | object fs =>
    change Except.ok (Fields.contains fs key) = .ok true at h
    obtain ⟨w, hw⟩ := Option.isSome_iff_exists.mp (Except.ok.inj h)
    exact ⟨w, field_eq_ok_iff.mpr ⟨fs, rfl, hw⟩⟩
  | _ => cases hkind

/-- What a value holds is never found missing. -/
theorem held_or {p : Prop} (h : v.holdsKey key = .ok true) : p ∨ v.holdsKey key = .ok false ↔ p :=
  or_iff_left fun hnone => by cases h.symm.trans hnone

theorem not_isOk_field (h : v.holdsKey key = .ok false) : ¬(v.field key).isOk = true := by
  cases hfield : v.field key with
  | error e => exact Bool.false_ne_true
  | ok w => cases h.symm.trans (holdsKey_of_field hfield)

/-- A value that can be asked for one key can be asked for any. -/
theorem holdsKey_total {b : Bool} (h : v.holdsKey key = .ok b) (other : String) : ∃ c, v.holdsKey other = .ok c := by
  cases v with
  | list | object | text => exact ⟨_, rfl⟩
  | _ => cases h

theorem kind_of_fieldD (h : v.fieldD key absent = .ok w) : v.kind = .object := by
  cases v with
  | object fs => rfl
  | _ => cases h

theorem exists_fieldD (h : v.kind = .object) (key : String) (absent : Value) : ∃ w, v.fieldD key absent = .ok w := by
  cases v with
  | object fs => exact ⟨_, rfl⟩
  | _ => cases h

theorem kind_list_iff : v.kind = .list ↔ ∃ vs, v = .list vs := by
  cases v with
  | list vs => exact iff_of_true rfl ⟨vs, rfl⟩
  | _ => exact iff_of_false nofun nofun

theorem isText_iff {s : String} : v.isText s ↔ v = .text s := by
  cases v <;> simp [isText]

end MappingFlow.Value
