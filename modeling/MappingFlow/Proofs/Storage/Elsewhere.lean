/-
  MappingFlow.Proofs.Storage.Elsewhere — a file stays where it is while others change.

  The way along a path to a file goes through folders only. So it still leads there after
  a file was written or removed at another place, or a folder was made there
  (`AgreesOff.locate_file`). `ChangedOnly P s t` collects that: from `s` to `t` only the
  places with `P` were changed. A file that holds a text goes on holding one while texts are
  written, be it the old one or a new one (`IsText.writeText`).
-/

import MappingFlow.Proofs.Markup.Encoding
import MappingFlow.Proofs.Running
import MappingFlow.Proofs.Storage
import MappingFlow.Proofs.Storage.Paths

namespace MappingFlow.Storage

open List

variable {s t u : Storage} {place : Place}

/-! ## Where a path leads -/

/-- The place that a path leads to ends in the last part of the path. -/
theorem getLast?_of_walk (h : Located.IsAt (s.walk place parts) q) :
    ∃ n ∈ parts, q.getLast? = some n ∧ parts.getLast? = some n := by
  fun_induction walk s place parts with
  | case2 _ _ ih | case3 _ _ _ _ _ _ ih =>
    obtain ⟨n, hn, hq, hlast⟩ := ih h
    exact ⟨n, mem_cons_of_mem _ hn, hq, by rw [getLast?_cons, hlast]; rfl⟩
  | case4 place name | case6 place name =>
    obtain rfl : place ++ [name] = q := by simpa [Located.IsAt] using h
    exact ⟨name, mem_cons_self, by simp, by simp_all⟩
  | _ => simp_all [Located.IsAt]

theorem getLast?_of_locate (h : Located.IsAt (s.locate path) q) :
    ∃ n ∈ path.parts, q.getLast? = some n ∧ path.parts.getLast? = some n := by
  unfold locate at h
  split at h
  · exact getLast?_of_walk h
  · split at h
    · exact getLast?_of_walk h
    · rcases h with h | ⟨c, h⟩ <;> cases h

/-- Without a way up, the parts are the place. -/
theorem place_of_walk (hparts : ".." ∉ parts) (h : Located.IsAt (s.walk place parts) q) : q = place ++ parts := by
  fun_induction walk s place parts with
  | case3 _ _ _ _ _ _ ih =>
    rw [ih (mt (.tail _) hparts) h, append_assoc, singleton_append]
  | case4 place name | case6 place name =>
    obtain rfl : place ++ [name] = q := by simpa [Located.IsAt] using h
    simp_all
  | _ => simp_all [Located.IsAt]

theorem place_of_locate (hparts : ".." ∉ parts) (h : Located.IsAt (s.locate ⟨false, parts⟩) q) :
    q = parts := place_of_walk hparts h

/-! ## Changes at one place -/

/-- The two differ at the place `r` at most, and folders stay. -/
structure AgreesOff (r : Place) (s t : Storage) : Prop where
  folders : ∀ p, s.isFolderAt p = true → t.isFolderAt p = true
  elsewhere : ∀ p, p ≠ r → t.isFolderAt p = s.isFolderAt p ∧ t.fileAt? p = s.fileAt? p

theorem AgreesOff.walk_file (h : AgreesOff r s t) (hq : q ≠ r) (hwalk : s.walk place parts = .file q content) :
    t.walk place parts = .file q content := by
  fun_induction walk s place parts with
  | case2 place rest ih =>
    rw [walk, if_pos rfl]
    exact ih hwalk
  | case3 place name rest hup _ hfolder ih =>
    rw [walk, if_neg hup]
    exact (if_pos (h.folders _ hfolder)).trans (ih hwalk)
  | case4 place name rest hup _ hfolder content' hfile hlast =>
    obtain ⟨rfl, rfl⟩ : place ++ [name] = q ∧ content' = content := by simpa using hwalk
    obtain ⟨hfolders, hfiles⟩ := h.elsewhere _ hq
    simp_all [walk]
  | _ => cases hwalk

theorem AgreesOff.locate_file (h : AgreesOff r s t) (hq : q ≠ r)
    (hlocate : s.locate path = .file q content) : t.locate path = .file q content := by
  unfold locate at hlocate ⊢
  split at hlocate
  · rename_i ha
    rw [if_pos ha]
    exact h.walk_file hq hlocate
  · rename_i ha
    rw [if_neg ha]
    split at hlocate
    · rename_i htop
      rw [if_pos (h.folders top htop)]
      exact h.walk_file hq hlocate
    · cases hlocate

theorem agreesOff_putAt (s) (r : Place) (content) : AgreesOff r s (s.putAt r content) where
  folders p hp := by rw [isFolderAt_putAt]; exact hp
  elsewhere p hp := by rw [isFolderAt_putAt, fileAt_putAt, if_neg hp]; exact ⟨rfl, rfl⟩

theorem agreesOff_addFolder (s) (r : Place) : AgreesOff r s (s.addFolder r) := by
  unfold addFolder
  split
  · exact ⟨fun _ => id, fun _ _ => ⟨rfl, rfl⟩⟩
  · refine ⟨fun p hp => ?_, fun p hp => ⟨?_, rfl⟩⟩
    · unfold isFolderAt at hp ⊢
      rcases Bool.or_eq_true_iff.mp hp with hp | hp
      · rw [hp, Bool.true_or]
      · simp at hp
        simp [hp]
    · unfold isFolderAt
      simp [hp]

theorem lookup_filter (files : List (Place × Encoding.Bytes)) (hp : p ≠ r) :
    (files.filter (·.1 != r)).lookup p = files.lookup p := by
  induction files with
  | nil => rfl
  | cons f files ih =>
    obtain ⟨k, c⟩ := f
    by_cases hk : k = r
    · subst hk
      rw [filter_cons_of_neg (by simp), ih, lookup_cons, beq_eq_false_iff_ne.mpr hp]
    · rw [filter_cons_of_pos (by simpa using hk), lookup_cons, lookup_cons, ih]

theorem agreesOff_filter (s) (r : Place) : AgreesOff r s { s with files := s.files.filter (·.1 != r) } where
  folders _ hp := hp
  elsewhere _ hp := ⟨rfl, lookup_filter s.files hp⟩

/-! ## Plain names -/

/-- The last name of the place has no slash in it. -/
def EndsPlain (p : Place) : Prop := p = top ∨ ∀ n, p.getLast? = some n → '/' ∉ n.toList

/-- No name but that of the topmost folder has a slash in it. -/
def IsPlain (s : Storage) : Prop := ∀ p ∈ s.files.map (·.1) ++ s.folders, EndsPlain p

theorem endsPlain_of_locate (h : Located.IsAt (s.locate (.read path)) q) : EndsPlain q := by
  obtain ⟨n, hn, hq, -⟩ := getLast?_of_locate h
  refine .inr fun m hm => ?_
  obtain rfl : n = m := Option.some.inj (hq.symm.trans hm)
  exact (Path.isClean_read path n hn).1

theorem IsPlain.putAt (h : s.IsPlain) (hr : EndsPlain r) : (s.putAt r content).IsPlain := by
  intro p hp
  have hplaces : p ∈ s.files.map (·.1) ++ s.folders ∨ p = r := by
    unfold Storage.putAt at hp
    split at hp
    · rcases mem_append.mp hp with hp | hp
      · obtain ⟨f, hf, rfl⟩ := mem_map.mp hp
        obtain ⟨g, hg, rfl⟩ := mem_map.mp hf
        split
        · exact .inr rfl
        · exact .inl (mem_append_left _ (mem_map_of_mem hg))
      · exact .inl (mem_append_right _ hp)
    · simp only [map_append, map_cons, map_nil, mem_append, mem_singleton] at hp ⊢
      rcases hp with (hp | rfl) | hp
      · exact .inl (.inl hp)
      · exact .inr rfl
      · exact .inl (.inr hp)
  rcases hplaces with hp | rfl
  · exact h p hp
  · exact hr

theorem IsPlain.addFolder (h : s.IsPlain) (hr : EndsPlain r) : (s.addFolder r).IsPlain := by
  unfold Storage.addFolder
  split
  · exact h
  · intro p hp
    rw [← append_assoc] at hp
    rcases mem_append.mp hp with hp | hp
    · exact h p hp
    · obtain rfl := mem_singleton.mp hp
      exact hr

theorem IsPlain.filter (h : s.IsPlain) (keep) : IsPlain { s with files := s.files.filter keep } := by
  intro p hp
  refine h p ?_
  rcases mem_append.mp hp with hp | hp
  · obtain ⟨f, hf, rfl⟩ := mem_map.mp hp
    exact mem_append_left _ (mem_map_of_mem (mem_filter.mp hf).1)
  · exact mem_append_right _ hp

/-! ## Changes at several places -/

/-- Plain names stay plain, and a file at a place without `P` stays as it is. -/
structure ChangedOnly (P : Place → Prop) (s t : Storage) : Prop where
  plain : s.IsPlain → t.IsPlain
  kept : ∀ {path q content}, s.locate path = .file q content → ¬P q → t.locate path = .file q content

namespace ChangedOnly

variable {P : Place → Prop}

theorem refl (s) : ChangedOnly P s s := ⟨id, fun h _ => h⟩

theorem trans (h : ChangedOnly P s t) (h' : ChangedOnly P t u) : ChangedOnly P s u :=
  ⟨fun hs => h'.plain (h.plain hs), fun hlocate hq => h'.kept (h.kept hlocate hq) hq⟩

theorem of_agreesOff (h : AgreesOff r s t) (hr : P r) (hplain : s.IsPlain → t.IsPlain) : ChangedOnly P s t :=
  ⟨hplain, fun hlocate hq => h.locate_file (fun he => hq (by rw [he]; exact hr)) hlocate⟩

end ChangedOnly

variable {P : Place → Prop}

theorem putAt_of_write (h : s.write path content = .ok t) :
    ∃ r, Located.IsAt (s.locate (.read path)) r ∧ s.putAt r content = t := by
  obtain ⟨_, -, h⟩ := bind_eq_ok.mp h
  cases hl : s.locate (.read path) with
  | file place old => rw [hl] at h; exact ⟨place, .inr ⟨old, rfl⟩, Except.ok.inj h⟩
  | free place => rw [hl] at h; exact ⟨place, .inl rfl, Except.ok.inj h⟩
  | folder | nowhere | blocked => rw [hl] at h; cases h

theorem changedOnly_write (h : s.write path content = .ok t)
    (hP : ∀ r, Located.IsAt (s.locate (.read path)) r → P r) : ChangedOnly P s t := by
  obtain ⟨r, hat, rfl⟩ := putAt_of_write h
  exact .of_agreesOff (agreesOff_putAt s r content) (hP r hat) fun hs => hs.putAt (endsPlain_of_locate hat)

theorem changedOnly_remove (s) (hP : ∀ r, Located.IsAt (s.locate (.read path)) r → P r) :
    ChangedOnly P s (s.remove path) := by
  unfold remove
  split
  · rename_i r old hl
    exact .of_agreesOff (agreesOff_filter s r) (hP r (.inr ⟨old, hl⟩)) fun hs => hs.filter _
  · exact .refl s

/-- A folder with a plain name is made in the folder that paths begin in. -/
theorem changedOnly_makeFolder (hn : Path.IsPlainName n) (hP : P [n]) (h : s.makeFolder n = .ok t) :
    ChangedOnly P s t := by
  have hread := Path.read_name hn.1
  obtain ⟨_, -, h⟩ := bind_eq_ok.mp h
  cases hl : s.locate (.read n) with
  | folder place =>
    rw [hl] at h
    cases h
    exact .refl s
  | free place =>
    rw [hl] at h
    cases h
    have hplain := endsPlain_of_locate (.inl hl)
    rw [hread] at hl
    obtain rfl : place = [n] := place_of_locate (by simpa using Ne.symm hn.2) (.inl hl)
    exact .of_agreesOff (agreesOff_addFolder s [n]) hP fun hs => hs.addFolder hplain
  | nowhere =>
    -- The way has one step only, so nothing on it can be missing.
    exfalso
    rw [hread] at hl
    simp only [locate, walk, if_neg hn.2] at hl
    split at hl
    · split at hl
      · cases hl
      · split at hl <;> cases hl
    · exact absurd rfl ‹¬_›
  | file | blocked => rw [hl] at h; cases h

theorem changedOnly_makeOneFolder (hn : Path.IsPlainName n) (hP : P [n])
    (h : s.makeOneFolder n = .ok t) : ChangedOnly P s t := by
  obtain ⟨_, -, h⟩ := bind_eq_ok.mp h
  split at h
  · cases h
  · exact changedOnly_makeFolder hn hP h

/-! ## Texts -/

theorem read_eq_ok : s.read path = .ok content ↔
    refuse path = .ok () ∧ ∃ q, s.locate (.read path) = .file q content := by
  unfold read
  constructor
  · intro h
    obtain ⟨_, hrefuse, h⟩ := bind_eq_ok.mp h
    refine ⟨hrefuse, ?_⟩
    cases hl : s.locate (.read path) with
    | file q old => rw [hl] at h; cases h; exact ⟨q, rfl⟩
    | folder | free | nowhere | blocked => rw [hl] at h; cases h
  · rintro ⟨hrefuse, q, hl⟩
    refine bind_eq_ok.mpr ⟨(), hrefuse, ?_⟩
    rw [hl]
    rfl

/-- The file holds a text. -/
def IsText (s : Storage) (path : String) : Prop := ∃ text, s.readText path = .ok text

theorem isText_of_read (h : s.read path = .ok (Encoding.encodeUtf8 text)) : s.IsText path := by
  refine ⟨String.ofList text, bind_eq_ok.mpr ⟨_, h, ?_⟩⟩
  rw [Encoding.decodeUtf8_encodeUtf8]
  rfl

theorem isText_writeText (h : s.writeText path text = .ok t) : t.IsText path :=
  isText_of_read (read_write h)

/-- A file that holds a text holds one after a text was written, there or elsewhere. -/
theorem IsText.writeText (h : s.IsText path) (hwrite : s.writeText other text = .ok t) : t.IsText path := by
  obtain ⟨old, h⟩ := h
  obtain ⟨content, hread, hdecode⟩ := bind_eq_ok.mp h
  obtain ⟨hrefuse, q, hl⟩ := read_eq_ok.mp hread
  obtain ⟨r, -, rfl⟩ := putAt_of_write hwrite
  by_cases hq : q = r
  · have hnew : (s.putAt r (Encoding.encodeUtf8 text.toList)).locate (.read path) = .file r _ :=
      locate_putAt (.inr ⟨content, hq ▸ hl⟩)
    exact isText_of_read (read_eq_ok.mpr ⟨hrefuse, r, hnew⟩)
  · have hkept := (agreesOff_putAt s r (Encoding.encodeUtf8 text.toList)).locate_file hq hl
    exact ⟨old, bind_eq_ok.mpr ⟨content, read_eq_ok.mpr ⟨hrefuse, q, hkept⟩, hdecode⟩⟩

end MappingFlow.Storage
