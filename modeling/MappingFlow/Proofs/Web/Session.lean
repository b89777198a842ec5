/-
  MappingFlow.Proofs.Web.Session — the entries of a session, one by one.

  No two slots share a key, so an entry is changed only by setting its own slot. The
  mapping is kept beside the entries and is not touched by them.
-/

import MappingFlow.Proofs.Document.Fields
import MappingFlow.Web.Session

namespace MappingFlow

namespace Web

namespace Slot

def all : List Slot :=
  [files, loaded, configured, migrated, path, name, plan, config, pipeline, dataflow, report, datasets,
   errorCount, warningCount, duration, activeTab, migrations, selected, failure, failureTrace]

theorem mem_all (k : Slot) : k ∈ all := by
  cases k <;> decide

theorem key_inj {j k : Slot} (h : j.key = k.key) : j = k := by
  have hkeys : ∀ j ∈ all, ∀ k ∈ all, j.key = k.key → j = k := by decide +kernel
  exact hkeys j (mem_all j) k (mem_all k) h

end Slot

namespace Session

variable (s : Session) (j k : Slot) (v : Value)

@[simp] theorem get?_set : (s.set j v).get? k = if j = k then some v else s.get? k := by
  unfold Session.get? Session.set
  rw [Fields.get?_insert]
  by_cases h : j = k
  · rw [if_pos h, if_pos (congrArg Slot.key h)]
  · rw [if_neg h, if_neg fun hkey => h (Slot.key_inj hkey)]

@[simp] theorem getD_set (absent : Value) : (s.set j v).getD k absent = if j = k then v else s.getD k absent := by
  unfold Session.getD
  rw [get?_set]
  split <;> rfl

@[simp] theorem isSet_set : (s.set j v).isSet k = if j = k then v.isPresent else s.isSet k := by
  unfold Session.isSet
  rw [getD_set]
  split <;> rfl

theorem get?_start : (s.start j v).get? k = (s.get? k).or (if j = k then some v else none) := by
  unfold Session.start Session.has
  by_cases h : j = k
  · subst h
    cases hj : s.get? j with
    | none => simp
    | some old => simp [hj]
  · rw [if_neg h, Option.or_none]
    split
    · rfl
    · rw [get?_set, if_neg h]

@[simp] theorem parsed_set : (s.set k v).parsed = s.parsed := rfl

@[simp] theorem get?_setParsed (m) : (s.setParsed m).get? k = s.get? k := rfl

@[simp] theorem getD_setParsed (m) (absent : Value) : (s.setParsed m).getD k absent = s.getD k absent := rfl

@[simp] theorem isSet_setParsed (m) : (s.setParsed m).isSet k = s.isSet k := rfl

@[simp] theorem parsed_setParsed (m) : (s.setParsed m).parsed = some m := rfl

end Session

end Web

end MappingFlow
