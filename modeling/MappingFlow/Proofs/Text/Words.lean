/-
  MappingFlow.Proofs.Text.Words — the words of a text.

  A word is a longest run of word characters. `Stands w t b` says that `w` is a word of `t`
  with `b` behind it; a text put together from words and other characters has the words
  it was put together from (`stands_word`, `stands_sep`), and every run of word
  characters lies in some word (`exists_stands`).

  Signs have no case, so a text can be read off its upper-case form up to a sign
  (`upper_split`).
-/

import MappingFlow.Proofs.Sequence
import MappingFlow.Proofs.Text.Runs
import MappingFlow.Text.Blank
import MappingFlow.Text.Case
import MappingFlow.Text.Search

namespace MappingFlow.Text

open List

-- Goes through the text, where the instance for statements about all characters would try every character there is.
instance decidableForallMem (p : Char → Prop) [DecidablePred p] (t : List Char) : Decidable (∀ c ∈ t, p c) :=
  List.decidableBAll p t

/-! ## Kinds of characters -/

def blankCodes : List Nat :=
  [9, 10, 11, 12, 13, 28, 29, 30, 31, 32, 0x85, 0xa0, 0x1680, 0x2000, 0x2001, 0x2002, 0x2003, 0x2004, 0x2005,
   0x2006, 0x2007, 0x2008, 0x2009, 0x200a, 0x2028, 0x2029, 0x202f, 0x205f, 0x3000]

theorem toNat_mem_blankCodes (h : isBlank c) : c.toNat ∈ blankCodes := by
  simp only [isBlank, Bool.or_eq_true, Bool.and_eq_true, decide_eq_true_eq, beq_iff_eq] at h
  simp only [blankCodes, mem_cons, not_mem_nil, or_false]
  omega

theorem isWord_of_isBlank (h : isBlank c) : isWord c = false := by
  have hall : ∀ n ∈ blankCodes, isWord (Char.ofNat n) = false := by decide +kernel
  rw [← Char.ofNat_toNat c]
  exact hall _ (toNat_mem_blankCodes h)

theorem isBlank_of_isWord (h : isWord c) : isBlank c = false := by
  cases hb : isBlank c with
  | false => rfl
  | true => rw [isWord_of_isBlank hb] at h; cases h

/-! ## Words -/

/-- No word goes on at the front of the text. -/
def StartsClear (t : List Char) : Prop := t.head?.any isWord = false

def EndsClear (t : List Char) : Prop := t.getLast?.any isWord = false

def AllWord (t : List Char) : Prop := ∀ c ∈ t, isWord c = true

abbrev AllBlank (t : List Char) : Prop := ∀ c ∈ t, isBlank c = true

/-- The same text but for the case of its letters. -/
abbrev SameLetters (t n : List Char) : Prop := Forall₂ (fun c d => sameLetter c d = true) t n

instance (t : List Char) : Decidable (StartsClear t) := inferInstanceAs (Decidable (_ = false))

instance (t : List Char) : Decidable (EndsClear t) := inferInstanceAs (Decidable (_ = false))

instance (t : List Char) : Decidable (AllWord t) := inferInstanceAs (Decidable (∀ c ∈ t, _))

structure Stands (w t b : List Char) : Prop where
  ne_nil : w ≠ []
  word : AllWord w
  clear : StartsClear b
  split : ∃ a, t = a ++ w ++ b ∧ EndsClear a

variable {w t b c s y : List Char}

theorem startsClear_append (h : StartsClear s) (hs : s ≠ []) : StartsClear (s ++ t) := by
  cases s with
  | nil => exact absurd rfl hs
  | cons d s => exact h

theorem endsClear_append (hs : s ≠ []) : EndsClear (t ++ s) ↔ EndsClear s := by
  obtain ⟨d, hd⟩ := Option.ne_none_iff_exists'.mp (mt getLast?_eq_none_iff.mp hs)
  rw [EndsClear, EndsClear, getLast?_append, hd]
  rfl

theorem eq_nil_of_endsClear (h : EndsClear w) (hw : AllWord w) : w = [] := by
  cases hl : w.getLast? with
  | none => exact getLast?_eq_none_iff.mp hl
  | some d =>
    rw [EndsClear, hl] at h
    have := hw d (mem_of_getLast? hl)
    simp [this] at h

theorem takeWhile_of_startsClear (h : StartsClear t) : t.takeWhile isWord = [] := by
  cases t with
  | nil => rfl
  | cons d t =>
    have hd : isWord d = false := h
    rw [takeWhile_cons, hd]
    rfl

theorem takeWhile_word (hw : AllWord w) (ht : StartsClear t) : (w ++ t).takeWhile isWord = w := by
  rw [takeWhile_append_of_pos hw, takeWhile_of_startsClear ht, append_nil]

/-- Two ways to take a word off the front are the same. -/
theorem word_append_inj (hw : AllWord w) (hw' : AllWord w') (hb : StartsClear b)
    (hb' : StartsClear b') (h : w ++ b = w' ++ b') : w = w' ∧ b = b' := by
  have hword : w = w' := by rw [← takeWhile_word hw hb, h, takeWhile_word hw' hb']
  subst hword
  exact ⟨rfl, append_cancel_left h⟩

theorem stands_word (hc : c ≠ []) (hword : AllWord c) (hclear : StartsClear t) (h : Stands w (c ++ t) b) :
    (w = c ∧ b = t) ∨ Stands w t b := by
  obtain ⟨a, hsplit, ha⟩ := h.split
  rw [append_assoc] at hsplit
  rcases append_eq_append_iff.mp hsplit with ⟨a', rfl, ht⟩ | ⟨c', rfl, hwb⟩
  · -- What precedes `w` goes beyond `c`, and not just up to its end.
    have ha' : a' ≠ [] := by
      rintro rfl
      rw [append_nil] at ha
      exact hc (eq_nil_of_endsClear ha hword)
    exact .inr ⟨h.ne_nil, h.word, h.clear, a', by rw [ht, append_assoc], (endsClear_append ha').mp ha⟩
  · have ha : a = [] := eq_nil_of_endsClear ha fun d hd => hword d (mem_append_left _ hd)
    subst ha
    obtain ⟨hw, hb⟩ := word_append_inj h.word hword h.clear hclear hwb
    exact .inl ⟨hw, hb⟩

theorem stands_sep (hs : ∀ d ∈ s, isWord d = false) (h : Stands w (s ++ t) b) : Stands w t b := by
  induction s with
  | nil => exact h
  | cons d s ih =>
    refine ih (fun e he => hs e (.tail _ he)) ⟨h.ne_nil, h.word, h.clear, ?_⟩
    obtain ⟨a, hsplit, ha⟩ := h.split
    cases a with
    | nil =>
      obtain ⟨e, w', rfl⟩ := exists_cons_of_ne_nil h.ne_nil
      obtain ⟨rfl, -⟩ := List.cons.inj hsplit
      have hd := h.word d (.head _)
      rw [hs d (.head _)] at hd
      cases hd
    | cons e a =>
      obtain ⟨-, hsplit⟩ := List.cons.inj hsplit
      refine ⟨a, hsplit, ?_⟩
      cases a with
      | nil => rfl
      | cons f a => exact (endsClear_append (t := [e]) (cons_ne_nil f a)).mp ha

theorem startsClear_dropWhile (t : List Char) : StartsClear (t.dropWhile isWord) := head?_dropWhile_any isWord t

theorem dropWhile_of_startsClear (h : StartsClear t) : t.dropWhile isWord = t := by
  have := takeWhile_append_dropWhile (p := isWord) (l := t)
  rwa [takeWhile_of_startsClear h] at this

theorem allWord_takeWhile (t : List Char) : AllWord (t.takeWhile isWord) := all_eq_true.mp all_takeWhile

/-- A run of word characters lies in a word. -/
theorem exists_stands (hn : n ≠ []) (hword : AllWord n) :
    ∃ u v, Stands (u ++ n ++ v) (a ++ n ++ b) (b.dropWhile isWord) ∧ (EndsClear a → u = []) ∧
      (StartsClear b → v = [] ∧ b.dropWhile isWord = b) := by
  refine ⟨(a.reverse.takeWhile isWord).reverse, b.takeWhile isWord, ⟨?_, ?_, startsClear_dropWhile b, ?_⟩, ?_, ?_⟩
  · simp [hn]
  · intro d hd
    simp only [mem_append, mem_reverse] at hd
    rcases hd with (hd | hd) | hd
    · exact allWord_takeWhile _ d hd
    · exact hword d hd
    · exact allWord_takeWhile _ d hd
  · refine ⟨(a.reverse.dropWhile isWord).reverse, ?_, ?_⟩
    · have ha : (a.reverse.dropWhile isWord).reverse ++ (a.reverse.takeWhile isWord).reverse = a := by
        rw [← reverse_append, takeWhile_append_dropWhile, reverse_reverse]
      have hb : b.takeWhile isWord ++ b.dropWhile isWord = b := takeWhile_append_dropWhile
      calc a ++ n ++ b = ((a.reverse.dropWhile isWord).reverse ++ (a.reverse.takeWhile isWord).reverse) ++ n
            ++ (b.takeWhile isWord ++ b.dropWhile isWord) := by rw [ha, hb]
        _ = _ := by simp only [append_assoc]
    · rw [EndsClear, getLast?_reverse]
      exact startsClear_dropWhile _
  · intro ha
    rw [EndsClear, ← head?_reverse] at ha
    rw [takeWhile_of_startsClear ha, reverse_nil]
  · intro hb
    exact ⟨takeWhile_of_startsClear hb, dropWhile_of_startsClear hb⟩

/-! ## Squeezing and trimming -/

/-- Behind text that ends clear, and before text that starts clear, the words stand as they did. -/
theorem Stands.within (h : Stands w t b) (hs : EndsClear s) (hy : StartsClear y) : Stands w (s ++ t ++ y) (b ++ y) := by
  obtain ⟨a, rfl, ha⟩ := h.split
  refine ⟨h.ne_nil, h.word, ?_, s ++ a, by simp, ?_⟩
  · cases b with
    | nil => exact hy
    | cons d b => exact h.clear
  · by_cases hnil : a = []
    · rwa [hnil, append_nil]
    · exact (endsClear_append hnil).mpr ha

theorem squeezeFrom_word (hw : AllWord w) (inRun : Bool) (hne : w ≠ []) (t) :
    squeezeFrom inRun (w ++ t) = w ++ squeezeFrom false t := by
  induction w generalizing inRun with
  | nil => exact absurd rfl hne
  | cons d w ih =>
    have hd := isBlank_of_isWord (hw d (.head _))
    have hrest : AllWord w := fun e he => hw e (.tail _ he)
    simp only [cons_append, squeezeFrom, hd, Bool.false_eq_true, if_false]
    by_cases hnil : w = []
    · rw [hnil, nil_append, nil_append]
    · rw [ih hrest false hnil]

theorem startsClear_squeezeFrom (h : StartsClear t) : StartsClear (squeezeFrom false t) := by
  cases t with
  | nil => rfl
  | cons d t =>
    simp only [squeezeFrom]
    split
    · rfl
    · exact h

/-- Whatever stands before text that starts clear, the words of the text stand as they did. -/
theorem Stands.behind (h : Stands w t b) (ht : StartsClear t) : Stands w (s ++ t) b := by
  obtain ⟨a, rfl, ha⟩ := h.split
  refine ⟨h.ne_nil, h.word, h.clear, s ++ a, by simp, ?_⟩
  have hne : a ≠ [] := by
    rintro rfl
    obtain ⟨d, w', rfl⟩ := exists_cons_of_ne_nil h.ne_nil
    have hd : isWord d = false := ht
    rw [h.word d (.head _)] at hd
    cases hd
  exact (endsClear_append hne).mpr ha

/-- The words of a text with its blanks squeezed are words of the text. -/
theorem stands_of_squeezeFrom (inRun : Bool) (h : Stands w (squeezeFrom inRun t) b) : ∃ b', Stands w t b' := by
  induction t using runs_induction isWord generalizing inRun with
  | nil => exact ⟨b, h⟩
  | run k t hk ht ih =>
    -- A whole word goes over as it is.
    rw [squeezeFrom_word hk.all inRun hk.ne_nil] at h
    rcases stands_word hk.ne_nil hk.all (startsClear_squeezeFrom ht) h with ⟨rfl, -⟩ | h
    · exact ⟨t, hk.ne_nil, hk.all, ht, [], rfl, rfl⟩
    · obtain ⟨b', hb'⟩ := ih false h
      exact ⟨b', hb'.behind ht⟩
  | sign d t hd ih =>
    have hnext : ∃ inRun, Stands w (squeezeFrom inRun t) b := by
      simp only [squeezeFrom] at h
      split at h
      · split at h
        · exact ⟨true, h⟩
        · exact ⟨true, stands_sep (s := [' ']) (by decide) h⟩
      · exact ⟨false, stands_sep (s := [d]) (by simpa using hd) h⟩
    obtain ⟨inRun', h⟩ := hnext
    obtain ⟨b', hb'⟩ := ih inRun' h
    have := hb'.within (s := [d]) (y := []) (by simpa [EndsClear] using hd) rfl
    exact ⟨b' ++ [], by simpa using this⟩

theorem trim_split (t) : ∃ x y, AllBlank x ∧ AllBlank y ∧ t = x ++ trim t ++ y := by
  refine ⟨t.takeWhile isBlank, ((trimLeft t).reverse.takeWhile isBlank).reverse, all_eq_true.mp all_takeWhile,
    fun c hc => all_eq_true.mp all_takeWhile c (mem_reverse.mp hc), ?_⟩
  have hright : trim t ++ ((trimLeft t).reverse.takeWhile isBlank).reverse = trimLeft t := by
    rw [trim, trimRight, trimLeft, ← reverse_append, takeWhile_append_dropWhile, reverse_reverse]
  rw [append_assoc, hright]
  exact takeWhile_append_dropWhile.symm

/-- The words of a text without the blanks around it are words of the text. -/
theorem stands_of_trim (h : Stands w (trim t) b) : ∃ b', Stands w t b' := by
  obtain ⟨x, y, hx, hy, ht⟩ := trim_split t
  have hends : EndsClear x := by
    cases hl : x.getLast? with
    | none => rw [EndsClear, hl]; rfl
    | some d => rw [EndsClear, hl]; exact isWord_of_isBlank (hx d (mem_of_getLast? hl))
  have hstarts : StartsClear y := by
    cases y with
    | nil => rfl
    | cons d y => exact isWord_of_isBlank (hy d (.head _))
  rw [ht]
  exact ⟨b ++ y, h.within hends hstarts⟩

/-! ## Signs in upper case -/

/-- No other character has this one in its upper-case form. -/
def isUncased (d : Char) : Bool :=
  0 < d.toNat && d.toNat < 128 && !d.isAlpha && longUppers.all (fun f => !f.2.contains d.toNat)
    && upperRuns.all fun r => !(r.first + r.shift ≤ d.toNat && d.toNat ≤ r.last + r.shift)

theorem toUpper_eq_of_not_alpha {c d : Char} (hc : c.toNat < 128) (hd : d.isAlpha = false) (h : c.toUpper = d) :
    c = d := by
  have hall : ∀ n < 128, (Char.ofNat n).toUpper.isAlpha = true ∨ (Char.ofNat n).toUpper = Char.ofNat n := by
    decide +kernel
  rcases hall _ hc with hn | hn
  · rw [Char.ofNat_toNat, h, hd] at hn; cases hn
  · rw [Char.ofNat_toNat, h] at hn; exact hn.symm

theorem toNat_ofNat_of_pos (h : 0 < (Char.ofNat n).toNat) : (Char.ofNat n).toNat = n := by
  by_cases hn : n.isValidChar
  · rw [Char.ofNat, dif_pos hn]
    rfl
  · rw [Char.ofNat, dif_neg hn] at h
    exact absurd h (by decide)

theorem toNat_shiftBy {runs : List CaseRun} {c : Char} (hpos : 0 < (shiftBy runs c).toNat) :
    shiftBy runs c = c ∨ ∃ r ∈ runs, r.first + r.shift ≤ (shiftBy runs c).toNat ∧
      (shiftBy runs c).toNat ≤ r.last + r.shift := by
  unfold shiftBy at hpos ⊢
  split
  · rename_i d hd
    simp only [hd] at hpos
    obtain ⟨r, hr, hshift⟩ := exists_of_findSome?_eq_some hd
    rw [CaseRun.shift?] at hshift
    split at hshift
    · rename_i hrange
      simp only [Bool.and_eq_true, decide_eq_true_eq] at hrange
      cases hshift
      have hval := toNat_ofNat_of_pos hpos
      refine .inr ⟨r, hr, ?_, ?_⟩ <;> omega
    · cases hshift
  · exact .inl rfl

theorem mem_upperChar_iff {c d : Char} (h : isUncased d) : d ∈ upperChar c ↔ c = d := by
  simp only [isUncased, Bool.and_eq_true, decide_eq_true_eq, Bool.not_eq_true', all_eq_true] at h
  obtain ⟨⟨⟨⟨hpos, hlt⟩, halpha⟩, hlong⟩, hruns⟩ := h
  unfold upperChar
  by_cases hc : c.toNat < 128
  · rw [if_pos hc, mem_singleton]
    refine ⟨fun h => toUpper_eq_of_not_alpha hc halpha h.symm, ?_⟩
    rintro rfl
    have hall : ∀ n < 128, (Char.ofNat n).isAlpha = false → (Char.ofNat n).toUpper = Char.ofNat n := by decide +kernel
    have := hall _ hc
    rw [Char.ofNat_toNat] at this
    exact (this halpha).symm
  · rw [if_neg hc]
    refine ⟨fun hmem => ?_, fun h => absurd (h ▸ hlt) hc⟩
    exfalso
    cases hform : longForm? longUppers c with
    | some cs =>
      rw [hform, Option.getD_some] at hmem
      obtain ⟨codes, hcodes, rfl⟩ := Option.map_eq_some_iff.mp hform
      obtain ⟨n, hn, rfl⟩ := mem_map.mp hmem
      have := hlong (c.toNat, codes) (mem_of_lookup hcodes)
      rw [toNat_ofNat_of_pos hpos] at this
      simp [hn] at this
    | none =>
      rw [hform, Option.getD_none, mem_singleton] at hmem
      subst hmem
      rcases toNat_shiftBy hpos with heq | ⟨r, hr, hlow, hhigh⟩
      · rw [heq] at hlt; exact hc hlt
      · have := hruns r hr
        simp [hlow, hhigh] at this

theorem upperChar_of_uncased (h : isUncased d) : upperChar d = [d] := by
  have hmem := (mem_upperChar_iff h).mpr rfl
  simp only [isUncased, Bool.and_eq_true, decide_eq_true_eq] at h
  rw [upperChar, if_pos h.1.1.1.2] at hmem ⊢
  rw [← mem_singleton.mp hmem]

theorem upper_append (s t) : upper (s ++ t) = upper s ++ upper t := flatMap_append

theorem upper_split (hd : isUncased d) (h : upper t = a ++ d :: b) :
    ∃ t₁ t₂, t = t₁ ++ d :: t₂ ∧ upper t₁ = a ∧ upper t₂ = b := by
  induction t generalizing a with
  | nil => cases a <;> cases h
  | cons c t ih =>
    change upperChar c ++ upper t = a ++ d :: b at h
    rcases append_eq_append_iff.mp h with ⟨a', rfl, ht⟩ | ⟨s, hs, hrest⟩
    · obtain ⟨t₁, t₂, rfl, rfl, rfl⟩ := ih ht
      exact ⟨c :: t₁, t₂, rfl, rfl, rfl⟩
    · cases s with
      | nil =>
        obtain ⟨t₁, t₂, rfl, h1, rfl⟩ := ih (a := []) hrest.symm
        rw [append_nil] at hs
        exact ⟨c :: t₁, t₂, rfl, by rw [← hs]; exact congrArg _ h1 |>.trans (append_nil _), rfl⟩
      | cons e s =>
        obtain ⟨rfl, hb⟩ := List.cons.inj hrest
        -- The form of `c` has the sign in it, so `c` is the sign and its form nothing else.
        obtain rfl : c = d := (mem_upperChar_iff hd).mp (by rw [hs]; simp)
        rw [upperChar_of_uncased hd] at hs
        cases a with
        | nil =>
          obtain ⟨-, hs⟩ := List.cons.inj hs
          subst hs
          exact ⟨[], t, rfl, rfl, hb.symm⟩
        | cons f a => simp at hs

theorem contains_iff : contains piece t ↔ ∃ a b, t = a ++ piece ++ b := by
  induction t with
  | nil =>
    rw [contains, List.isEmpty_iff]
    refine ⟨fun h => ⟨[], [], by rw [h]; rfl⟩, fun ⟨a, b, h⟩ => ?_⟩
    exact (append_eq_nil_iff.mp (append_eq_nil_iff.mp h.symm).1).2
  | cons c t ih =>
    rw [contains, Bool.or_eq_true, isPrefixOf_iff_prefix, ih]
    refine ⟨?_, ?_⟩
    · rintro (⟨b, hb⟩ | ⟨a, b, rfl⟩)
      · exact ⟨[], b, hb.symm⟩
      · exact ⟨c :: a, b, rfl⟩
    · rintro ⟨a, b, h⟩
      cases a with
      | nil => exact .inl ⟨b, h.symm⟩
      | cons d a => exact .inr ⟨a, b, (List.cons.inj h).2⟩

theorem not_stands_of_contains (h : contains w t = false) : ¬ Stands w t b := by
  rintro ⟨-, -, -, a, ht, -⟩
  rw [contains_iff.mpr ⟨a, b, ht⟩] at h
  cases h

/-- Letters do not reach across a separator. -/
theorem contains_upper_sep (hd : isUncased d) (hfree : d ∉ piece)
    (h : contains piece (upper (x ++ d :: y))) : contains piece (upper x) ∨ contains piece (upper y) = true := by
  obtain ⟨a, b, hab⟩ := contains_iff.mp h
  have hupper : upper (x ++ d :: y) = upper x ++ d :: upper y := by
    rw [upper_append, ← singleton_append, upper_append]
    simp [upper, upperChar_of_uncased hd]
  rw [hupper, append_assoc] at hab
  rcases append_eq_append_iff.mp hab with ⟨a', rfl, hy⟩ | ⟨c, hx, hpiece⟩
  · cases a' with
    | nil =>
      cases piece with
      | nil => exact .inl (contains_iff.mpr ⟨[], upper x, rfl⟩)
      | cons e piece =>
        obtain ⟨rfl, -⟩ := List.cons.inj hy
        exact absurd (.head _) hfree
    | cons e a' => exact .inr (contains_iff.mpr ⟨a', b, by rw [append_assoc]; exact (List.cons.inj hy).2⟩)
  · rcases append_eq_append_iff.mp hpiece with ⟨c', rfl, -⟩ | ⟨q, rfl, hq⟩
    · exact .inl (contains_iff.mpr ⟨a, c', by rw [hx, append_assoc]⟩)
    · cases q with
      | nil => exact .inl (contains_iff.mpr ⟨a, [], by simpa using hx⟩)
      | cons e q =>
        obtain ⟨rfl, -⟩ := List.cons.inj hq
        exact absurd (by simp) hfree

end MappingFlow.Text
