/-
  MappingFlow.Proofs.Expression.Again — results that are converted once more.

  Converting a comparison or a join leaves a sign behind that shows it (`Shows`). So in a
  result without calls and comparisons only words were replaced last, and words that have
  become signs are no words any more (`signed_signed`). But the sign of OR is that of a join:
  such a result is its own conversion exactly if no join is left in it (`convert_again_iff`).
-/

import MappingFlow.Proofs.Conversion.Spelling
import MappingFlow.Proofs.Expression.Constants
import MappingFlow.Proofs.Expression.Phrase

namespace MappingFlow.Expression

open Pattern Text
open List hiding all

variable {e r t t' w : List Char} {c : Char}

/-! ## What a change leaves behind -/

theorem mem_substitute {p : Pattern} (hp : 0 < p.minLength) (hc : .text c ∈ v)
    (h : p.occursIn t) : c ∈ p.substitute v t := by
  obtain ⟨m, hm⟩ := Option.isSome_iff_exists.mp h
  have hlength := (find_reads hm).2.minLength_le
  have hwritten : c ∈ v.expand m := mem_flatMap.mpr ⟨_, hc, .head _⟩
  rw [Pattern.substitute, replaceAll_find hm (ne_nil_of_length_pos (by omega))]
  simp [hwritten]

/-- A replacement that writes the character, and the character is not there. -/
theorem substitute_of_not_mem {p : Pattern} (hp : 0 < p.minLength) (hc : .text c ∈ v)
    (h : c ∉ p.substitute v t) : p.substitute v t = t :=
  replaceAll_of_absent (occursIn_eq_false_iff.mp (Bool.eq_false_iff.mpr fun ho => h (mem_substitute hp hc ho)))

/-- What follows the replacement of words. -/
def comparing (t : List Char) : List Char := convertComparisons ((operatorRules.drop 3).foldl blindly t)

theorem comparing_of_not_mem (h : '=' ∉ comparing t) : comparing t = t := by
  have hlast := substitute_of_not_mem (by decide) (by decide) h
  rw [comparing, convertComparisons, hlast] at h ⊢
  have hsecond := substitute_of_not_mem (by decide) (by decide) h
  simp only [operatorRules, drop_succ_cons, drop_zero, foldl_cons, foldl_nil, blindly] at h hsecond ⊢
  rw [hsecond] at h ⊢
  exact substitute_of_not_mem (by decide) (by decide) h

theorem mem_joinOnce (h : joinOnce? t = some t') : '(' ∈ t' := by
  unfold joinOnce? at h
  split at h
  · rename_i hjoin
    cases h
    exact mem_substitute (by decide +kernel) (by decide) (Bool.and_eq_true_iff.mp hjoin).2
  · cases h

/-- A join that is looked for and not found. -/
theorem joins_of_not_mem (h : '(' ∉ convertJoins t t) :
    joinOnce? t = none ∨ contains "DECODE".toList (upper t) = true := by
  unfold convertJoins at h
  split at h
  · left
    cases hstep : joinOnce? t with
    | none => rfl
    | some t' =>
      rw [joinTexts, repeatStep, hstep] at h
      exact absurd (repeatStep_invariant (fun _ _ _ => mem_joinOnce) 19 (mem_joinOnce hstep)) h
  · rename_i hjoins
    cases hbars : contains ['|', '|'] t with
    | true => exact .inr (by simpa [hbars] using hjoins)
    | false => exact .inl (by simp [joinOnce?, hbars])

theorem convertJoins_same (h : joinOnce? t = none ∨ contains "DECODE".toList (upper t)) : convertJoins t t = t := by
  rcases h with hnone | hdecode
  · unfold convertJoins
    split
    · exact repeatStep_of_none hnone 20
    · rfl
  · rw [convertJoins, hdecode, Bool.not_true, Bool.and_false, if_neg Bool.false_ne_true]

/-! ## Words that become signs -/

/-- The logical operators, as words and as signs. -/
def logicalSigns : List (List Char × List Char) :=
  [("AND".toList, "&&".toList), ("OR".toList, "||".toList), ("NOT".toList, "!".toList)]

def signed (t : List Char) : List Char := logicalSigns.foldl (fun t k => (wholeWord k.1).substitute (.plain k.2) t) t

theorem isIdentifier_logical {k : List Char × List Char} (hk : k ∈ logicalSigns) : Conversion.IsIdentifier k.1 := by
  have check : ∀ k ∈ logicalSigns, Conversion.isAsciiName k.1 = true := by decide
  exact Conversion.isIdentifier_of_asciiName (check k hk)

theorem splitsAt_signed (hd : isWord d = false) : SplitsAt d signed := by
  refine SplitsAt.foldl fun k hk => ?_
  have hname := isIdentifier_logical hk
  exact splitsAt_substitute (isLocal_wholeWord hname.allWord hd) (wholeWord_pos hname.1) hd

theorem signed_word (hw : IsRun isWord w) (h : ∀ k ∈ logicalSigns, k.1 ≠ w) : signed w = w := by
  have hname := fun k => @isIdentifier_logical k
  unfold signed
  generalize logicalSigns = ks at h hname ⊢
  induction ks with
  | nil => rfl
  | cons k ks ih =>
    rw [foldl_cons, Conversion.substitute_word (hname k (.head _)) hw, if_neg (h k (.head _)).symm]
    exact ih (fun k' hk' => h k' (.tail _ hk')) fun k' hk' => hname k' (.tail _ hk')

theorem signed_signed (t) : signed (signed t) = signed t := by
  have hboth : signed (signed t) = mapRuns isWord (fun t => signed (signed t)) t :=
    eq_mapRuns (fun d hd => (splitsAt_signed hd).comp (splitsAt_signed hd)) rfl t
  have honce : signed t = mapRuns isWord signed t := eq_mapRuns (fun d hd => splitsAt_signed hd) rfl t
  rw [hboth, honce]
  refine mapRuns_congr fun w hw => ?_
  by_cases hkey : ∀ k ∈ logicalSigns, k.1 ≠ w
  · have hsame : signed w = w := by
      rcases mem_runs hw with hrun | ⟨d, hd, rfl⟩
      · exact signed_word hrun hkey
      · exact splitsAt_signed hd [] []
    rw [hsame, hsame]
  · have hkeys : ∀ k ∈ logicalSigns, signed (signed k.1) = signed k.1 := by decide +kernel
    simp only [not_forall, not_not] at hkey
    obtain ⟨k, hk, rfl⟩ := hkey
    exact hkeys k hk

theorem not_mem_of_signed (h : '(' ∉ signed t) : '(' ∉ t := fun hmem => by
  obtain ⟨a, b, rfl⟩ := append_of_mem hmem
  exact h (by simp [splitsAt_signed (d := '(') (by decide) a b])

/-! ## Results without calls and comparisons -/

theorem convertUnchecked_eq (t) : convertUnchecked t = comparing (signed (convertJoins t (convertStructure t))) := by
  have hoperators : ∀ t, convertOperators t = (operatorRules.drop 3).foldl blindly (signed t) := fun _ => rfl
  rw [convertUnchecked, hoperators, comparing]

theorem convertStructure_bare (hcalls : '(' ∉ r) (hdate : (caseless "SYSDATE".toList).occursIn r = false)
    (hclean : cleaned r = r) : convertStructure r = r := by
  have hadd : addCallPattern.Absent r := fun before rest ht => at_eq_none_iff.mpr fun u hu => hcalls <| by
    rw [ht]
    rcases hu with hu | hu
    · exact mem_append_right _ (mem_of_reads (by simp) hu)
    · exact mem_append_right _ (mem_of_reads (by simp) hu)
  have hrule : ∀ rule ∈ callRules, rule.apply r = r := fun rule hrule => replaceAll_of_absent <| by
    unfold CallRule.pattern
    split
    · rename_i hnone
      rw [bareRules rule hrule (by rw [hnone]; rfl)]
      exact occursIn_eq_false_iff.mp hdate
    · exact absent_of_not_mem (by simp) hcalls
  rw [convertStructure, show dropDirectionMarkers (trim (squeeze (trim r))) = r from hclean,
    convertDecode_absent (absent_of_not_mem (by simp) hcalls), convertAddToDate_absent hadd,
    convertDatePart_absent (absent_of_not_mem (by simp) hcalls), convertCalls_quiet hrule]

theorem convert_eq_ok_iff (h : isBlankText t = false) :
    convert t = .ok r ↔ convertUnchecked t = r ∧ markersIn r = [] := by
  rw [convert, h, if_neg (by decide)]
  simp only
  cases hm : markersIn (convertUnchecked t) with
  | nil => simp only [Except.ok.injEq]; exact ⟨fun h => ⟨h, h ▸ hm⟩, fun h => h.1⟩
  | cons m ms => exact ⟨fun h => (by cases h), fun h => by rw [h.1, h.2] at hm; cases hm⟩

/-- A result without calls and comparisons that is clean already is its own conversion, unless a join is left. -/
theorem convert_again_iff (h : convert e = .ok r) (hcalls : '(' ∉ r) (hsigns : '=' ∉ r)
    (hdate : (caseless "SYSDATE".toList).occursIn r = false) (hclean : cleaned r = r) :
    convert r = .ok r ↔ joinOnce? r = none ∨ contains "DECODE".toList (upper r) = true := by
  cases hblank : isBlankText r with
  | true =>
    have hbars : '|' ∉ r := fun hmem => absurd (all_eq_true.mp hblank _ hmem) (by decide)
    exact iff_of_true (by rw [convert, if_pos hblank]) (.inl (joinOnce_quiet hbars))
  | false =>
    have hsource : isBlankText e = false := by
      refine Bool.eq_false_iff.mpr fun he => ?_
      rw [convert, if_pos he] at h
      cases h
      exact Bool.false_ne_true (hblank.symm.trans he)
    obtain ⟨he, hmarkers⟩ := (convert_eq_ok_iff hsource).mp h
    have last : ∀ {x}, comparing x = r → x = r := fun hx => (comparing_of_not_mem (hx ▸ hsigns)).symm.trans hx
    rw [convertUnchecked_eq] at he
    have hwords := last he
    rw [hwords] at he
    rw [convert_eq_ok_iff hblank, and_iff_left hmarkers, convertUnchecked_eq, convertStructure_bare hcalls hdate hclean]
    constructor
    · intro hr
      exact joins_of_not_mem (not_mem_of_signed (by rwa [last hr]))
    · intro hjoins
      have hsigned : signed r = r := by rw [← hwords, signed_signed]
      rw [convertJoins_same hjoins, hsigned, he]

theorem both_again : (convert "A AND B".toList = .ok "A && B".toList ∧ cleaned "A && B".toList = "A && B".toList) ∧
    convert "A && B".toList = .ok "A && B".toList :=
  have h : convert "A AND B".toList = .ok "A && B".toList := by decide +kernel
  have hclean : cleaned "A && B".toList = "A && B".toList := by decide +kernel
  ⟨⟨h, hclean⟩, (convert_again_iff h (by decide) (by decide) (by decide +kernel) hclean).mpr (.inl (by decide +kernel))⟩

/-- One of two conditions becomes two texts that are joined. -/
theorem either_joined_again : convert "A OR B".toList = .ok "A || B".toList ∧
    convert "A || B".toList = .ok "concat(A, B)".toList ∧ "concat(A, B)" ≠ "A || B" := by
  decide +kernel

end MappingFlow.Expression
