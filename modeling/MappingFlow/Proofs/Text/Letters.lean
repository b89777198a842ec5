/-
  MappingFlow.Proofs.Text.Letters — letters of the alphabet and their other cases.

  Lower case changes no sign, and few characters outside of the alphabet have a letter of
  it in lower case (`lowerChar_ascii`). So a text that is plain in lower case is made of word
  characters (`allWord_of_lowerFrom`), and whatever is a plain letter without regard to
  case is a word character (`isWord_of_sameLetter`).
-/

import MappingFlow.Proofs.Text.Words

namespace MappingFlow.Text

open List

variable {c d : Char} {before t : List Char}

theorem forall_ascii {P : Char → Prop} (h : ∀ n < 128, P (Char.ofNat n)) : ∀ c : Char, c.toNat < 128 → P c := by
  intro c hc
  have := h c.toNat hc
  rwa [Char.ofNat_toNat] at this

/-- Besides the letters of the alphabet only two characters have one of them in lower case. -/
theorem lowerChar_ascii (h : (lowerChar c).toNat < 128) (hpos : 0 < (lowerChar c).toNat) :
    c.toNat < 128 ∨ c = '\u212a' ∨ c = 'İ' := by
  by_cases hc : c.toNat < 128
  · exact .inl hc
  · have hruns : ∀ r ∈ lowerRuns, 128 ≤ r.first + r.shift ∨ r.first = r.last ∧ (r.first = 0x212a ∨ r.first = 0x130) := by
      decide +kernel
    rw [lowerChar, if_neg hc] at h hpos
    unfold shiftBy at h hpos
    split at h
    · rename_i d hd
      simp only [hd] at hpos
      obtain ⟨r, hr, hshift⟩ := exists_of_findSome?_eq_some hd
      rw [CaseRun.shift?] at hshift
      split at hshift
      · rename_i hrange
        cases hshift
        simp only [Bool.and_eq_true, decide_eq_true_eq] at hrange
        rw [toNat_ofNat_of_pos hpos] at h
        rcases hruns r hr with hfar | ⟨hone, hcode | hcode⟩
        · omega
        · refine .inr (.inl ?_)
          rw [← Char.ofNat_toNat c, show c.toNat = 0x212a by omega]
        · refine .inr (.inr ?_)
          rw [← Char.ofNat_toNat c, show c.toNat = 0x130 by omega]
      · cases hshift
    · exact absurd h hc

/-- A letter of the alphabet, a digit or an underscore. -/
def isPlainLetter (c : Char) : Bool := c.toNat < 128 && isWord c

theorem toNat_of_isPlainLetter (h : isPlainLetter c) : c.toNat < 128 := by
  simp only [isPlainLetter, Bool.and_eq_true, decide_eq_true_eq] at h
  exact h.1

theorem isWord_of_lowerChar (h : isPlainLetter (lowerChar c)) : c = 'İ' ∨ isWord c = true := by
  have hascii : ∀ c : Char, c.toNat < 128 → isPlainLetter (lowerChar c) = true → isWord c = true :=
    forall_ascii (by decide)
  have hzero : isWord (Char.ofNat 0) = false := by decide
  have hpos : 0 < (lowerChar c).toNat := by
    refine Nat.pos_of_ne_zero fun hnone => ?_
    rw [isPlainLetter, ← Char.ofNat_toNat (lowerChar c), hnone, hzero, Bool.and_false] at h
    cases h
  rcases lowerChar_ascii (toNat_of_isPlainLetter h) hpos with hc | rfl | rfl
  · exact .inr (hascii c hc h)
  · exact .inr (by decide +kernel)
  · exact .inl rfl

/-- A text that is plain in lower case is made of word characters. -/
theorem allWord_of_lowerFrom (h : ∀ d ∈ lowerFrom before t, isPlainLetter d) : AllWord t := by
  induction t generalizing before with
  | nil => exact fun _ hc => absurd hc (not_mem_nil)
  | cons c t ih =>
    simp only [lowerFrom, mem_append] at h
    intro d hd
    rcases mem_cons.mp hd with rfl | hd
    · -- The three letters with a lower case of their own are far from plain.
      have hhere := fun e he => h e (.inl he)
      split at hhere
      · exfalso
        split at hhere
        · exact absurd (hhere 'ς' (by simp)) (by decide)
        · exact absurd (hhere 'σ' (by simp)) (by decide)
      · split at hhere
        · exact absurd (hhere '\u0307' (by simp)) (by decide)
        · rename_i hdot
          exact (isWord_of_lowerChar (hhere _ (by simp))).resolve_left (by simpa using hdot)
    · exact ih (fun e he => h e (.inr he)) d hd

theorem eq_nil_of_lowerFrom (h : lowerFrom before t = []) : t = [] := by
  cases t with
  | nil => rfl
  | cons c t =>
    have hhere := (append_eq_nil_iff.mp h).1
    split at hhere
    · cases hhere
    · split at hhere <;> cases hhere

/-- Lower case of letters of the alphabet, digits and underscores. -/
theorem isPlainLetter_lowerFrom (h : ∀ c ∈ t, isPlainLetter c) : ∀ d ∈ lowerFrom before t, isPlainLetter d = true := by
  have hascii : ∀ c : Char, c.toNat < 128 → isPlainLetter c = true → isPlainLetter (lowerChar c) = true :=
    forall_ascii (by decide)
  induction t generalizing before with
  | nil => exact fun _ hd => absurd hd (not_mem_nil)
  | cons c t ih =>
    have hc := h c (.head _)
    have hfar : c ≠ 'Σ' ∧ c ≠ 'İ' := by
      constructor <;> rintro rfl <;> exact absurd hc (by decide)
    intro d hd
    simp only [lowerFrom, beq_iff_eq, hfar.1, hfar.2, if_false, singleton_append, mem_cons] at hd
    rcases hd with rfl | hd
    · exact hascii c (toNat_of_isPlainLetter hc) hc
    · exact ih (fun e he => h e (.tail _ he)) d hd

/-! ## Letters without regard to case -/

/-- The dotless i and the long s are the lower case of no other letter. -/
theorem lowerChar_rare (h : (lowerChar d).toNat = 305 ∨ (lowerChar d).toNat = 383) : lowerChar d = d := by
  have hascii : ∀ d : Char, d.toNat < 128 → d.toLower.toNat < 128 := forall_ascii (by decide)
  have hruns : ∀ r ∈ lowerRuns, ∀ k ∈ [305, 383], ¬ ((r.first : Int) + r.shift ≤ k ∧ (k : Int) ≤ r.last + r.shift) := by
    decide +kernel
  unfold lowerChar at h ⊢
  by_cases hd : d.toNat < 128
  · rw [if_pos hd] at h
    have := hascii d hd
    omega
  · rw [if_neg hd] at h ⊢
    refine (toNat_shiftBy (by omega)).resolve_right ?_
    rintro ⟨r, hr, hlow, hhigh⟩
    rcases h with h | h
    · exact hruns r hr 305 (by decide) (by rw [h] at hlow hhigh; exact ⟨hlow, hhigh⟩)
    · exact hruns r hr 383 (by decide) (by rw [h] at hlow hhigh; exact ⟨hlow, hhigh⟩)

theorem isWord_of_lower (h : isPlainLetter (lowerChar d) ∨ (lowerChar d).toNat = 305 ∨ (lowerChar d).toNat = 383) :
    isWord d = true := by
  rcases h with h | h
  · rcases isWord_of_lowerChar h with rfl | hd
    · decide
    · exact hd
  · have hword : isWord (Char.ofNat 305) = true ∧ isWord (Char.ofNat 383) = true := by decide
    rw [lowerChar_rare h] at h
    rw [← Char.ofNat_toNat d]
    rcases h with h | h <;> rw [h]
    · exact hword.1
    · exact hword.2

/-- Of the plain letters only i and s have kin. -/
theorem isWord_of_sameLetter (hc : isPlainLetter c) (h : sameLetter c d) : isWord d = true := by
  have hplain : ∀ c : Char, c.toNat < 128 → isPlainLetter c = true → isPlainLetter (lowerChar c) = true ∧
      ∀ k ∈ (caselessKin.lookup (lowerChar c).toNat).getD [], k = 305 ∨ k = 383 := forall_ascii (by decide)
  obtain ⟨hlower, hkin⟩ := hplain c (toNat_of_isPlainLetter hc) hc
  simp only [sameLetter, Bool.or_eq_true, beq_iff_eq, contains_iff_mem] at h
  rcases h with heq | hmem
  · exact isWord_of_lower (.inl (heq ▸ hlower))
  · exact isWord_of_lower (.inr (hkin _ hmem))

theorem isWord_of_sameLetter_left (hd : isPlainLetter d) (h : sameLetter c d) : isWord c = true := by
  have hplain : ∀ d : Char, d.toNat < 128 → isPlainLetter d = true → isPlainLetter (lowerChar d) = true ∧
      ∀ f ∈ caselessKin, (lowerChar d).toNat ∈ f.2 → f.1 = 305 ∨ f.1 = 383 := forall_ascii (by decide)
  obtain ⟨hlower, hkin⟩ := hplain d (toNat_of_isPlainLetter hd) hd
  simp only [sameLetter, Bool.or_eq_true, beq_iff_eq, contains_iff_mem] at h
  rcases h with heq | hmem
  · exact isWord_of_lower (.inl (heq ▸ hlower))
  · cases hl : caselessKin.lookup (lowerChar c).toNat with
    | none => simp [hl] at hmem
    | some ks =>
      rw [hl, Option.getD_some] at hmem
      exact isWord_of_lower (.inr (hkin ((lowerChar c).toNat, ks) (mem_of_lookup hl) hmem))

/-- The signs and letters of a date format have no case but upper and lower. -/
theorem upperChar_of_sameLetter (hc : c ∈ "DMY/-".toList) (h : sameLetter c d) : upperChar d = [c] := by
  have hself : ∀ c ∈ "DMY/-".toList, caselessKin.lookup (lowerChar c).toNat = none ∧ (lowerChar c).toNat < 128 ∧
      0 < (lowerChar c).toNat ∧ lowerChar '\u212a' ≠ lowerChar c ∧ lowerChar 'İ' ≠ lowerChar c := by decide
  have hascii : ∀ d : Char, d.toNat < 128 → ∀ c ∈ "DMY/-".toList, lowerChar d = lowerChar c → upperChar d = [c] :=
    forall_ascii (by decide)
  obtain ⟨hkin, hlt, hpos, hfar⟩ := hself c hc
  simp only [sameLetter, hkin, Option.getD_none, List.contains_nil, Bool.or_false, beq_iff_eq] at h
  rw [h] at hlt hpos
  rcases lowerChar_ascii hlt hpos with hd | rfl | rfl
  · exact hascii d hd c hc h.symm
  · exact absurd h.symm hfar.1
  · exact absurd h.symm hfar.2

/-! ## Upper case -/

/-- Letters that are the upper case of two letters each. -/
def commonLetters : List Char := "TRUEANDO".toList

theorem toNat_of_upperChar (h : ∀ d ∈ upperChar c, d ∈ commonLetters) : c.toNat < 128 := by
  have hlong : ∀ f ∈ longUppers, ∃ n ∈ f.2, Char.ofNat n ∉ commonLetters := by decide
  have hruns : ∀ r ∈ upperRuns, ∀ d ∈ commonLetters,
      ¬ ((r.first : Int) + r.shift ≤ d.toNat ∧ (d.toNat : Int) ≤ r.last + r.shift) := by decide +kernel
  by_contra hc
  rw [upperChar, if_neg hc] at h
  cases hform : longForm? longUppers c with
  | some cs =>
    rw [hform, Option.getD_some] at h
    obtain ⟨codes, hcodes, rfl⟩ := Option.map_eq_some_iff.mp hform
    obtain ⟨n, hn, hnot⟩ := hlong (c.toNat, codes) (mem_of_lookup hcodes)
    exact hnot (h _ (mem_map_of_mem hn))
  | none =>
    rw [hform, Option.getD_none] at h
    have hd := h _ (mem_singleton_self _)
    have hrange : ∀ d ∈ commonLetters, 0 < d.toNat ∧ d.toNat < 128 := by decide
    rcases toNat_shiftBy (hrange _ hd).1 with heq | ⟨r, hr, hlow, hhigh⟩
    · rw [heq] at hd
      exact hc (hrange _ hd).2
    · exact hruns r hr _ hd ⟨hlow, hhigh⟩

/-- A character whose upper case is made of these letters is a letter. -/
theorem isWord_of_upperChar (h : ∀ d ∈ upperChar c, d ∈ commonLetters) : isWord c = true := by
  have hascii : ∀ c : Char, c.toNat < 128 → (∀ d ∈ upperChar c, d ∈ commonLetters) → isWord c = true :=
    forall_ascii (by decide)
  exact hascii c (toNat_of_upperChar h) h

end MappingFlow.Text
