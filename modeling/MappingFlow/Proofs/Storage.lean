/-
  MappingFlow.Proofs.Storage — a file holds what was last written to it.

  Writing changes one file and no folder, so the way along a path that led to the file, or
  to the free place for it, leads to the file afterwards (`walk_putAt`). Reading the path
  then answers what was written (`read_write`).
-/

import MappingFlow.Storage.Basic

namespace MappingFlow.Storage

variable {s s' : Storage} {p q : Place} {content : Encoding.Bytes}

theorem isFolderAt_putAt : (s.putAt p content).isFolderAt q = s.isFolderAt q := by
  unfold putAt
  split <;> rfl

theorem lookup_overwrite (files : List (Place × Encoding.Bytes)) :
    (files.map fun f => if f.1 = p then (p, content) else f).lookup q =
      if q = p then (files.lookup p).map fun _ => content else files.lookup q := by
  induction files with
  | nil => simp
  | cons f files ih =>
    obtain ⟨k, old⟩ := f
    rw [List.map_cons, List.lookup_cons, ih]
    by_cases hk : k = p
    · subst hk
      by_cases hq : q = k
      · simp [hq]
      · have hne : (q == k) = false := beq_eq_false_iff_ne.mpr hq
        rw [if_pos rfl, if_neg hq, if_neg hq, List.lookup_cons, hne]
    · have hkp : (p == k) = false := beq_eq_false_iff_ne.mpr (Ne.symm hk)
      by_cases hq : q = p
      · subst hq
        rw [if_neg hk, if_pos rfl, if_pos rfl, List.lookup_cons, hkp]
      · rw [if_neg hk, if_neg hq, if_neg hq, List.lookup_cons]

theorem fileAt_putAt : (s.putAt p content).fileAt? q = if q = p then some content else s.fileAt? q := by
  unfold putAt
  split
  · rename_i hp
    obtain ⟨old, hold⟩ := Option.isSome_iff_exists.mp hp
    unfold fileAt? at hold ⊢
    rw [lookup_overwrite, hold]
    rfl
  · rename_i hp
    have hnone : s.files.lookup p = none := by
      cases h : s.files.lookup p with
      | none => rfl
      | some c => exact absurd (by rw [fileAt?, h]; rfl) hp
    unfold fileAt?
    rw [List.lookup_append]
    by_cases hq : q = p
    · rw [hq, hnone, if_pos rfl]
      simp
    · rw [if_neg hq, List.lookup_cons, beq_eq_false_iff_ne.mpr hq]
      simp

/-- What a path leads to is a file or a place for one. -/
def Located.IsAt (l : Located) (p : Place) : Prop := l = .free p ∨ ∃ old, l = .file p old

theorem walk_putAt {place : Place} (h : Located.IsAt (s.walk place parts) p) :
    (s.putAt p content).walk place parts = .file p content := by
  induction parts generalizing place with
  | nil => rcases h with h | ⟨old, h⟩ <;> cases h
  | cons name rest ih =>
    simp only [walk] at h ⊢
    by_cases hup : name = ".."
    · rw [if_pos hup] at h ⊢
      exact ih h
    · rw [if_neg hup] at h ⊢
      rw [isFolderAt_putAt]
      by_cases hfolder : s.isFolderAt (place ++ [name]) = true
      · rw [if_pos hfolder] at h ⊢
        exact ih h
      · rw [if_neg hfolder] at h ⊢
        -- The way ends here, at the place itself.
        have hend : rest.isEmpty = true ∧ place ++ [name] = p := by
          unfold Located.IsAt at h
          cases hfile : s.fileAt? (place ++ [name]) <;> cases hrest : rest.isEmpty <;> simp_all
        rw [fileAt_putAt, if_pos hend.2]
        simp [hend]

theorem locate_putAt (h : Located.IsAt (s.locate path) p) : (s.putAt p content).locate path = .file p content := by
  unfold locate at h ⊢
  rw [isFolderAt_putAt]
  by_cases ha : (!path.isAbsolute) = true
  · rw [if_pos ha] at h ⊢
    exact walk_putAt h
  · rw [if_neg ha] at h ⊢
    by_cases ht : s.isFolderAt top = true
    · rw [if_pos ht] at h ⊢
      exact walk_putAt h
    · rw [if_neg ht] at h
      rcases h with h | ⟨old, h⟩ <;> cases h

theorem read_write (h : s.write path content = .ok s') : s'.read path = .ok content := by
  unfold write at h
  unfold read
  cases hr : refuse path with
  | error e => rw [hr] at h; cases h
  | ok u =>
    rw [hr] at h
    obtain ⟨place, hat, rfl⟩ : ∃ place, Located.IsAt (s.locate (.read path)) place ∧ s.putAt place content = s' := by
      cases hl : s.locate (.read path) with
      | file place old => rw [hl] at h; exact ⟨place, .inr ⟨old, rfl⟩, Except.ok.inj h⟩
      | free place => rw [hl] at h; exact ⟨place, .inl rfl, Except.ok.inj h⟩
      | folder | nowhere | blocked => rw [hl] at h; cases h
    rw [locate_putAt hat]
    rfl

end MappingFlow.Storage
