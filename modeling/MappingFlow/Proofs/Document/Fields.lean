/-
  MappingFlow.Proofs.Document.Fields — what is found under the keys of an object.

  Entering a key changes what is found under this key only (`get?_insert`), and of several
  entries of one key the last counts (`get?_update`).
-/

import MappingFlow.Document.Value
import MappingFlow.Proofs.Sequence

namespace MappingFlow.Fields

open List

theorem get?_cons (f fs k) : get? (f :: fs) k = if f.1 = k then some f.2 else get? fs k := by
  unfold get?
  by_cases h : f.1 = k
  · rw [lookup_cons, beq_iff_eq.mpr h.symm, if_pos h]
  · rw [lookup_cons, beq_eq_false_iff_ne.mpr (Ne.symm h), if_neg h]

theorem get?_insert (fs : Fields) (k other : String) (v : Value) :
    (fs.insert k v).get? other = if k = other then some v else fs.get? other := by
  induction fs with
  | nil => rw [Fields.insert, get?_cons]
  | cons f rest ih =>
    unfold Fields.insert
    by_cases hk : f.1 = k
    · rw [if_pos (beq_iff_eq.mpr hk), get?_cons, get?_cons, hk]
      split <;> rfl
    · rw [if_neg (fun h => hk (beq_iff_eq.mp h)), get?_cons, ih, get?_cons]
      by_cases hf : f.1 = other
      · rw [if_pos hf, if_pos hf, if_neg (fun h => hk (hf.trans h.symm))]
      · rw [if_neg hf, if_neg hf]

theorem get?_update (fs gs : Fields) (k : String) : (fs.update gs).get? k = (gs.reverse.lookup k).or (fs.get? k) := by
  induction gs generalizing fs with
  | nil => rfl
  | cons g gs ih =>
    have hcons : fs.update (g :: gs) = (fs.insert g.1 g.2).update gs := rfl
    rw [hcons, ih, get?_insert, reverse_cons, lookup_append, Option.or_assoc]
    congr 1
    by_cases hg : g.1 = k
    · rw [if_pos hg, lookup_cons, beq_iff_eq.mpr hg.symm, Option.some_or]
    · rw [if_neg hg, lookup_cons, beq_eq_false_iff_ne.mpr (Ne.symm hg), lookup_nil, Option.none_or]

/-! ## No key twice -/

theorem mem_keys_insert (fs : Fields) (k other : String) (v : Value) :
    other ∈ (fs.insert k v).keys ↔ other = k ∨ other ∈ fs.keys := by
  induction fs with
  | nil => simp [Fields.insert, keys]
  | cons f rest ih =>
    unfold Fields.insert
    by_cases hk : f.1 = k
    · simp [hk, keys]
    · rw [if_neg (fun h => hk (beq_iff_eq.mp h))]
      simp only [keys, map_cons, mem_cons] at ih ⊢
      rw [ih, or_left_comm]

theorem nodup_insert {fs : Fields} (h : fs.keys.Nodup) (k : String) (v : Value) : (fs.insert k v).keys.Nodup := by
  induction fs with
  | nil => exact nodup_cons.mpr ⟨not_mem_nil, nodup_nil⟩
  | cons f rest ih =>
    obtain ⟨hf, hrest⟩ := nodup_cons.mp h
    unfold Fields.insert
    by_cases hk : f.1 = k
    · rw [if_pos (beq_iff_eq.mpr hk)]
      exact nodup_cons.mpr ⟨hk ▸ hf, hrest⟩
    · rw [if_neg (fun h => hk (beq_iff_eq.mp h))]
      refine nodup_cons.mpr ⟨fun hmem => ?_, ih hrest⟩
      rcases (mem_keys_insert rest k f.1 v).mp hmem with heq | hmem
      · exact hk heq
      · exact hf hmem

theorem nodup_update {fs : Fields} (h : fs.keys.Nodup) (gs) : (fs.update gs).keys.Nodup := by
  induction gs generalizing fs with
  | nil => exact h
  | cons g gs ih => exact ih (nodup_insert h g.1 g.2)

theorem get?_eq_some_iff {fs : Fields} (h : fs.keys.Nodup) : fs.get? k = some v ↔ (k, v) ∈ fs := by
  refine ⟨mem_of_lookup, fun hmem => ?_⟩
  induction fs with
  | nil => cases hmem
  | cons f rest ih =>
    obtain ⟨hf, hrest⟩ := nodup_cons.mp h
    rw [get?_cons]
    rcases mem_cons.mp hmem with rfl | hmem
    · exact if_pos rfl
    · have hk : f.1 ≠ k := fun hk => hf (mem_map.mpr ⟨(k, v), hmem, hk.symm⟩)
      rw [if_neg hk, ih hrest hmem]

end MappingFlow.Fields
