/-
  MappingFlow.Proofs.Conversion.Leftovers — what is left of the source language in an
  expression.

  A conversion that succeeds leaves nothing. Where it fails functions are renamed instead, and
  nothing checks the result. Renaming goes piece by piece between blanks, and it neither makes
  nor takes away a keyword (`upper_renamed_iff`), so every keyword of the expression is left
  (`convert_unmarked_iff`).
-/

import Mathlib.Data.List.Sections
import MappingFlow.Proofs.Expression.Again

namespace MappingFlow

open Pattern Text Expression
open List

variable {t w k : List Char} {table : Fields}

/-- Where the result has a separator, the text had one. -/
theorem Pattern.SplitsAt.unsplit (hf : SplitsAt d f) (hfree : ∀ t, d ∉ t → d ∉ f t) (h : f t = x ++ d :: z) :
    ∃ a b, t = a ++ d :: b ∧ f a = x ∧ f b = z := by
  induction hn : t.length using Nat.strong_induction_on generalizing t x with
  | _ n ih =>
  have hd : d ∈ t := by
    by_contra hd
    exact hfree t hd (by simp [h])
  obtain ⟨p, t, rfl, hp⟩ := eq_append_cons_of_mem hd
  rw [hf] at h
  rcases append_eq_append_iff.mp h with ⟨y, rfl, hy⟩ | ⟨y, hx, hy⟩
  · cases y with
    | nil => exact ⟨p, t, rfl, by simp, (cons.inj hy).2⟩
    | cons e y =>
      obtain ⟨rfl, hrest⟩ := cons.inj hy
      obtain ⟨a, b, rfl, rfl, hb⟩ := ih t.length (by simp at hn; omega) hrest rfl
      exact ⟨p ++ d :: a, b, by simp, hf p a, hb⟩
  · cases y with
    | nil => exact ⟨p, t, rfl, by simpa using hx, (cons.inj hy).2.symm⟩
    | cons e y =>
      obtain ⟨rfl, -⟩ := cons.inj hy
      exact absurd (by simp [hx]) (hfree p hp)

theorem Text.replace_eq_or_infix (old new t : List Char) :
    replace old new t = t ∨ new <:+: replace old new t := by
  induction t with
  | nil => exact .inl rfl
  | cons c t ih =>
    rw [replace, replaceFrom]
    split
    · exact .inr ⟨[], _, rfl⟩
    · exact ih.imp (congrArg (c :: ·)) (infix_cons)

theorem Text.not_mem_replace (hnew : d ∉ new) (ht : d ∉ t) : d ∉ replace old new t := by
  have walk : ∀ skip, d ∉ replaceFrom old new skip t := by
    induction t with
    | nil => exact fun _ => not_mem_nil
    | cons c t ih =>
      rw [mem_cons, not_or] at ht
      intro skip
      cases skip with
      | succ n => exact ih ht.2 n
      | zero =>
        rw [replaceFrom]
        split
        · simpa [hnew] using ih ht.2 _
        · simpa [ht.1] using ih ht.2 0
  exact walk 0

namespace Conversion

/-! ## Keywords -/

/-- A keyword in every case. -/
def spellings (k : String) : List (List Char) := (k.toList.map fun c => [c, c.toLower]).sections

theorem mem_spellings {k : String} (hk : k ∈ keywords) (hw : upper w = k.toList) : w ∈ spellings k := by
  have hletters : ∀ k ∈ keywords, ∀ c ∈ k.toList, c ∈ commonLetters := by decide
  have hascii : ∀ c : Char, c.toNat < 128 → upperChar c = [c.toUpper] ∧ c ∈ [c.toUpper, c.toUpper.toLower] :=
    forall_ascii (by decide)
  have hplain : ∀ c ∈ w, c.toNat < 128 := fun c hc => toNat_of_upperChar fun d hd =>
    hletters k hk d (by rw [← hw]; exact mem_flatMap.mpr ⟨c, hc, hd⟩)
  rw [spellings, mem_sections, ← hw]
  clear hw
  induction w with
  | nil => exact .nil
  | cons c w ih =>
    obtain ⟨hupper, hmem⟩ := hascii c (hplain c (.head _))
    rw [upper, flatMap_cons, hupper]
    exact .cons hmem (ih fun e he => hplain e (.tail _ he))

/-- An ordinary row whose new name has no blank and is in no keyword. -/
def sparesKeywords (g : String × Value) : Bool :=
  isOrdinary g && (match g.2 with
    | .text v => !v.toList.contains ' ' && keywords.all fun k => !contains (upper v.toList) k.toList
    | _ => false)

theorem sparesKeywords_iff (hg : sparesKeywords g) : ∃ name v : String, name ≠ "" ∧
    ' ' ∉ v.toList ∧ (∀ k ∈ keywords, contains (upper v.toList) k.toList = false) ∧
    ∀ t, renameBy t g = (caseless name.toList).replaceAll (fun _ => v.toList) t := by
  obtain ⟨name, value⟩ := g
  cases value with
  | text v =>
    simp only [sparesKeywords, isOrdinary, Bool.and_eq_true, bne_iff_ne, Bool.not_eq_true', all_eq_true] at hg
    obtain ⟨⟨⟨-, hname⟩, -⟩, hblank, hkeywords⟩ := hg
    exact ⟨name, v, hname, by simpa using hblank, hkeywords, fun t => substitute_plain ..⟩
  | _ => simp [sparesKeywords] at hg

theorem contains_upper_of_infix (h : v <:+: x) (hx : upper x = k) : contains (upper v) k = true := by
  obtain ⟨a, b, rfl⟩ := h
  exact contains_iff.mpr ⟨upper a, upper b, by rw [← hx, upper_append, upper_append]⟩

/-- A row whose result is a keyword has changed nothing. -/
theorem renameBy_eq (hg : sparesKeywords g) {k : String} (hk : k ∈ keywords)
    (hu : upper (renameBy t g) = k.toList) : renameBy t g = t := by
  obtain ⟨name, v, hname, -, hkeywords, hrename⟩ := sparesKeywords_iff hg
  rw [hrename] at hu ⊢
  cases hfind : (caseless name.toList).find? t with
  | none => exact replaceAll_of_absent (occursIn_eq_false_iff.mp (by rw [occursIn, hfind]; rfl))
  | some m =>
    have hne := ne_nil_of_length_pos (Nat.lt_of_lt_of_le (minLength_caseless hname) (find_reads hfind).2.minLength_le)
    rw [replaceAll_find hfind hne] at hu
    have := contains_upper_of_infix ⟨_, _, append_assoc ..⟩ hu
    rw [hkeywords k hk] at this
    cases this

section Table

variable (htable : table.all sparesKeywords = true)

include htable

theorem not_mem_renamed (ht : ' ' ∉ t) : ' ' ∉ renamed table t := by
  refine not_mem_replace (by decide) (List.foldlRecOn (motive := (' ' ∉ ·)) _ _ ht fun t ht g hg => ?_)
  obtain ⟨_, v, -, hblank, -, hrename⟩ := sparesKeywords_iff (all_eq_true.mp htable g hg)
  rw [hrename]
  exact not_mem_replaceAll (fun _ => hblank) ht

variable {k : String} (hk : k ∈ keywords)

include hk

theorem foldl_renameBy_eq (hu : upper (table.foldl renameBy t) = k.toList) : table.foldl renameBy t = t := by
  induction table generalizing t with
  | nil => rfl
  | cons g table ih =>
    rw [all_cons, Bool.and_eq_true] at htable
    have hrest := ih htable.2 hu
    rw [foldl_cons, hrest] at hu ⊢
    exact renameBy_eq htable.1 hk hu

theorem renamed_eq (hu : upper (renamed table t) = k.toList) : renamed table t = t := by
  rcases replace_eq_or_infix ['|', '|'] "concat".toList (table.foldl renameBy t) with h | h
  · rw [renamed, h] at hu ⊢
    exact foldl_renameBy_eq htable hk hu
  · have := contains_upper_of_infix h hu
    rw [(by decide : ∀ k ∈ keywords, contains (upper "concat".toList) k.toList = false) k hk] at this
    cases this

/-- No keyword is renamed, and nothing else is renamed to one. -/
theorem upper_renamed_iff (hwords : ∀ w ∈ spellings k, renamed table w = w) :
    upper (renamed table w) = k.toList ↔ upper w = k.toList := by
  refine ⟨fun h => ?_, fun h => ?_⟩
  · rwa [renamed_eq htable hk h] at h
  · rwa [hwords w (mem_spellings hk h)]

theorem hasKeyword_renamed (hwords : ∀ w ∈ spellings k, renamed table w = w) :
    hasKeyword (renamed table t) k = hasKeyword t k := by
  have hordinary : table.all isOrdinary = true := all_eq_true.mpr fun g hg => by
    have := all_eq_true.mp htable g hg
    simp only [sparesKeywords, Bool.and_eq_true] at this
    exact this.1
  have hsplit : SplitsAt ' ' (renamed table) := splitsAt_renamed hordinary (by decide)
  have hfree : ∀ t, ' ' ∉ t → ' ' ∉ renamed table t := fun _ => not_mem_renamed htable
  rw [Bool.eq_iff_iff, hasKeyword, hasKeyword, contains_spaced_iff, contains_spaced_iff]
  constructor
  · rintro ⟨x, w, y, h, hw⟩
    obtain ⟨a, z, rfl, -, hz⟩ := hsplit.unsplit hfree h
    obtain ⟨w, b, rfl, rfl, -⟩ := hsplit.unsplit hfree hz
    exact ⟨a, w, b, rfl, (upper_renamed_iff htable hk hwords).mp hw⟩
  · rintro ⟨x, w, y, rfl, hw⟩
    exact ⟨_, _, _, by rw [hsplit, hsplit], (upper_renamed_iff htable hk hwords).mpr hw⟩

end Table

/-! ## Whole expressions -/

theorem markersIn_of_blank (h : isBlankText t) : markersIn t = [] := by
  have hblank : ∀ c ∈ t, isBlank c = true := all_eq_true.mp h
  refine markersIn_eq_nil_iff.mpr ⟨fun m hm => Bool.eq_false_iff.mpr fun hcall => ?_,
    fun k hk => Bool.eq_false_iff.mpr fun hword => ?_⟩
  · obtain ⟨a, b, hab⟩ := contains_iff.mp hcall
    obtain ⟨x, y, rfl, -⟩ := upper_split (d := '(') (by decide) (a := a ++ m.toList) (b := b) (by simpa using hab)
    exact absurd (hblank '(' (by simp)) (by decide)
  · have hletter : ∀ k ∈ keywords, ∀ w ∈ spellings k, w.any (!isBlank ·) = true := by decide
    obtain ⟨x, w, y, rfl, hw⟩ := contains_spaced_iff.mp hword
    obtain ⟨c, hc, hword⟩ := any_eq_true.mp (hletter k hk w (mem_spellings hk hw))
    simp [hblank c (by simp [hc])] at hword

/-- What converts has no marker left. What does not keeps its keywords, and the calls that
    renaming leaves. -/
theorem convert_unmarked_iff (e : String) : ∃ o, Rules.standard.convert (.text e) = .ok o ∧
    (markersIn o.toList = [] ↔ (∃ r, Expression.convert e.toList = .ok r) ∨
      (∀ k ∈ keywords, hasKeyword e.toList k = false) ∧ ∀ m ∈ callMarkers, hasCall o.toList m = false) := by
  by_cases he : e = ""
  · subst he
    exact ⟨"", rfl, iff_of_true (by decide) (.inl ⟨[], rfl⟩)⟩
  have hpresent : (Value.text e).isPresent = true := by simpa [Value.isPresent] using he
  cases hc : Expression.convert e.toList with
  | ok r =>
    refine ⟨String.ofList r, by simp [Rules.convert, hpresent, hc], iff_of_true ?_ (.inl ⟨r, rfl⟩)⟩
    rw [String.toList_ofList]
    cases hblank : isBlankText e.toList with
    | true =>
      rw [Expression.convert, if_pos hblank] at hc
      cases hc
      exact markersIn_of_blank hblank
    | false => exact ((convert_eq_ok_iff hblank).mp hc).2
  | error x =>
    obtain ⟨f, table, htable, hplain⟩ := standardFunctions_plain
    have hspares : (f :: table).all sparesKeywords = true ∧
        ∀ k ∈ keywords, ∀ w ∈ spellings k, renamed (f :: table) w = w := by
      cases htable
      decide +kernel
    have hkeywords : ∀ k ∈ keywords, hasKeyword (renamed (f :: table) e.toList) k = hasKeyword e.toList k :=
      fun k hk => hasKeyword_renamed hspares.1 hk (hspares.2 k hk)
    have hconvert : Rules.standard.convert (.text e) = Rules.standard.rename (.text e) := by
      simp [Rules.convert, hpresent, hc]
    refine ⟨_, hconvert.trans (rename_text htable hplain e), ?_⟩
    rw [String.toList_ofList, markersIn_eq_nil_iff, and_comm, forall₂_congr fun k hk => by rw [hkeywords k hk]]
    simp

/-- A keyword in lower case stays. -/
theorem lowerKeyword_left : Rules.standard.convert (.text "A and B") = .ok "A and B" ∧
    markersIn "A and B".toList = [" AND "] :=
  ⟨ok_of_toOption (by decide +kernel), by decide +kernel⟩

end Conversion

end MappingFlow
