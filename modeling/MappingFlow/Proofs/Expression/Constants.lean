/-
  MappingFlow.Proofs.Expression.Constants — which literals an expression keeps.

  Blanks are squeezed and direction markers, SYSDATE and operators replaced inside literals
  as well as outside. A literal is verbatim if there is nothing of this in it. No pass gives
  a literal back what an earlier one took from it (`Fades`), so the literals of the result are
  those of the source only if every pass kept them (`verbatim_of_kept`); and every pass keeps
  those that are verbatim (`kept_of_verbatim`).
-/

import MappingFlow.Proofs.Expression.Cases

namespace MappingFlow.Expression

open Pattern Quoting Reader
open List

/-- Blanks squeezed and direction markers dropped. -/
def cleaned (t : List Char) : List Char := dropDirectionMarkers (Text.trim (Text.squeeze (Text.trim t)))

/-- Nothing in the text is rewritten by a pass that works inside of literals. -/
def Verbatim (x : List Char) : Prop := Text.squeeze x = x ∧ ∀ rule ∈ blindRules, rule.1.occursIn x = false

instance (x : List Char) : Decidable (Verbatim x) := inferInstanceAs (Decidable (_ ∧ _))

variable {t t' u r : List Char} {xs ds : List (List Char)} {d : List (List Char)}

/-! ## Literals that stay -/

theorem Verbatim.blindly (h : Verbatim x) (hrule : rule ∈ blindRules) : blindly x rule = x := by
  rw [blindly_eq]
  exact replaceAll_of_absent (occursIn_eq_false_iff.mp (h.2 rule hrule))

theorem Verbatim.operators (h : Verbatim x) : operatorRules.foldl Expression.blindly x = x := by
  have hrules : ∀ rule ∈ operatorRules, rule ∈ blindRules := fun _ hr => .tail _ (.tail _ hr)
  generalize operatorRules = rules at hrules
  induction rules with
  | nil => rfl
  | cons rule rules ih =>
    rw [foldl_cons, h.blindly (hrules rule (.head _))]
    exact ih fun q hq => hrules q (.tail _ hq)

theorem read_cleaning (h : quoting.read (outside []) t = outside xs) :
    quoting.read (outside []) (Text.trim (Text.squeeze (Text.trim t))) = outside (xs.map Text.squeeze) := by
  have htrim := read_trim h
  obtain ⟨-, ys, -, hplain, hys⟩ := read_eq_outside.1.mp htrim
  rw [nil_append] at hys
  subst hys
  have hsqueeze : quoting.read (outside []) (Text.squeeze (Text.trim t)) = outside ([] ++ xs.map Text.squeeze) :=
    read_piecewise isPiecewise_squeeze (fun x hx => isPlain_squeeze (hplain x hx)) htrim
  exact read_trim hsqueeze

theorem read_blindly (hxs : ∀ x ∈ ds, Verbatim x) (hrule : rule ∈ blindRules)
    (h : quoting.read (outside d) t = outside ds) : quoting.read (outside d) (blindly t rule) = outside ds :=
  read_of_fixed (isBlind_of_mem hrule).isPiecewise (fun x hx => (hxs x hx).blindly hrule) h

theorem read_operators (hxs : ∀ x ∈ ds, Verbatim x) (h : quoting.read (outside d) t = outside ds) :
    quoting.read (outside d) (convertOperators t) = outside ds :=
  read_of_fixed (isPiecewise_foldl isBlind_operators) (fun x hx => (hxs x hx).operators) h

theorem spares_convertArgument (hxs : ∀ x ∈ ds, Verbatim x) : Spares ds convertArgument := by
  intro a d₁ d₂ hd₂ h
  rw [convertArgument, (holding_comparisons _).read_eq]
  exact read_operators (fun x hx => hxs x (hd₂ x hx)) (read_joinTexts h)

theorem read_applyCallRules (hxs : ∀ x ∈ ds, Verbatim x) (ht : DateFree t) (h : quoting.read (outside d) t = outside ds) :
    quoting.read (outside d) (applyCallRules t) = outside ds := by
  have before := holding_before ht
  have hdate := (losing_sysdate _).dateFree (before.losing.dateFree ht)
  rw [applyCallRules_eq, (holding_after hdate).read_eq]
  refine read_blindly hxs (.tail _ (.head _)) ?_
  rw [before.read_eq, h]

theorem read_convertCalls (hxs : ∀ x ∈ ds, Verbatim x) (ht : DateFree t) (h : quoting.read (outside d) t = outside ds) :
    quoting.read (outside d) (convertCalls t) = outside ds := by
  refine (repeatStep_invariant (I := fun t => DateFree t ∧ quoting.read (outside d) t = outside ds)
    (fun t t' hI hstep => ?_) 10 ⟨ht, h⟩).2
  simp only [callsOnce?] at hstep
  split at hstep
  · cases hstep
  · rw [← Option.some.inj hstep]
    exact ⟨(losing_applyCallRules hI.1).dateFree hI.1, read_applyCallRules hxs hI.1 hI.2⟩

/-! ## The passes together -/

/-- Without date calls the conversion is its other passes. -/
theorem convertStructure_eq (ht : DateFree (cleaned t)) : convertStructure t = convertCalls (convertDecode (cleaned t)) := by
  have hdate := (losing_decode _).dateFree ht
  rw [convertStructure, ← cleaned, hdate.convertAddToDate, hdate.convertDatePart]

theorem losing_convertJoins (source t) : Losing t (convertJoins source t) := by
  rw [convertJoins]
  split
  · exact losing_joinTexts t
  · exact Sim.rfl losing_respects t

theorem read_convertJoins (source) (h : quoting.read (outside d) t = outside ds) :
    quoting.read (outside d) (convertJoins source t) = outside ds := by
  rw [convertJoins]
  split
  · exact read_joinTexts h
  · exact h

theorem kept_of_verbatim (hxs : ∀ x ∈ xs, Verbatim x) (ht : DateFree (cleaned t))
    (h : quoting.read (outside []) t = outside xs) : quoting.read (outside []) (convertUnchecked t) = outside xs := by
  have hclean := read_cleaning h
  rw [map_congr_left fun x hx => (hxs x hx).1, map_id'] at hclean
  have hmarkers : quoting.read (outside []) (cleaned t) = outside xs := read_blindly hxs (.head _) hclean
  have hdecode := read_decode (spares_convertArgument hxs) hmarkers
  have hcalls := read_convertCalls hxs ((losing_decode _).dateFree ht) hdecode
  rw [convertUnchecked, convertStructure_eq ht, (holding_comparisons _).read_eq]
  exact read_operators hxs (read_convertJoins t hcalls)

/-- What lies between two equal readings is equal to them. -/
theorem read_between (hfirst : Losing t u) (hrest : Losing u r) (ht : quoting.read (outside []) t = outside xs)
    (hr : quoting.read (outside []) r = outside xs) : quoting.read (outside []) u = outside xs := by
  have h := hfirst.fades (outside [])
  have h' := hrest.fades (outside [])
  rw [ht] at h
  rw [hr] at h'
  exact h.antisymm h'

/-- The first round is enough to find SYSDATE. -/
theorem sysdate_fixed (hdate : DateFree t) (h : quoting.read (outside []) t = outside xs)
    (hcalls : quoting.read (outside []) (convertCalls t) = outside xs) : ∀ x ∈ xs, blindly x sysdateRule = x := by
  have hround : quoting.read (outside []) (applyCallRules t) = outside xs := by
    by_cases hsame : applyCallRules t = t
    · rw [hsame, h]
    · have hstep : callsOnce? t = some (applyCallRules t) := by simp [callsOnce?, hsame]
      have hlater : Losing (applyCallRules t) (convertCalls t) := by
        rw [convertCalls, repeatStep, hstep]
        refine .repeatStep (I := DateFree) (fun t t' ht h => ?_) 9 ((losing_applyCallRules hdate).dateFree hdate)
        simp only [callsOnce?] at h
        split at h
        · cases h
        · rw [← Option.some.inj h]
          exact ⟨(losing_applyCallRules ht).dateFree ht, losing_applyCallRules ht⟩
      exact read_between (losing_applyCallRules hdate) hlater h hcalls
  have before := holding_before hdate
  have hdate' := (losing_sysdate _).dateFree (before.losing.dateFree hdate)
  rw [applyCallRules_eq, (holding_after hdate').read_eq] at hround
  exact fixed_of_read (isBlind_of_mem (.tail _ (.head _))).isPiecewise ((before.read_eq _).trans h) hround

theorem verbatim_of_kept (ht : DateFree (cleaned t)) (h : quoting.read (outside []) t = outside xs)
    (hr : quoting.read (outside []) (convertUnchecked t) = outside xs) : ∀ x ∈ xs, Verbatim x := by
  have hplain := (read_eq_iff.mp h).2
  have hdecode := losing_decode (cleaned t)
  have hdate := hdecode.dateFree ht
  have hcalls := losing_convertCalls hdate
  rw [convertUnchecked, convertStructure_eq ht, (holding_comparisons _).read_eq] at hr
  -- What is left to do behind each pass.
  have fromJoins := losing_operators (convertJoins t (convertCalls (convertDecode (cleaned t))))
  have fromCalls := (losing_convertJoins t _).trans losing_respects fromJoins
  have fromDecode := hcalls.trans losing_respects fromCalls
  have fromCleaned : Losing (cleaned t) _ := hdecode.trans losing_respects fromDecode
  have hclean := read_cleaning h
  have hmarkers := (isBlind_of_mem (.head _)).fades (Text.trim (Text.squeeze (Text.trim t))) _ _ (.same (outside []))
  have hrest := fromCleaned.fades (outside [])
  rw [hclean] at hmarkers
  rw [hr] at hrest
  have hsqueeze : xs = xs.map Text.squeeze := (hrest.trans hmarkers).eq_of_size (size_squeeze_le xs)
  rw [← hsqueeze] at hclean hmarkers
  have hcleaned : quoting.read (outside []) (cleaned t) = outside xs := hmarkers.antisymm hrest
  have hdecoded := read_between hdecode fromDecode hcleaned hr
  have hcalled := read_between hcalls fromCalls hdecoded hr
  have hjoined := read_between (losing_convertJoins t _) fromJoins hcalled hr
  have hsysdate := sysdate_fixed hdate hdecoded hcalled
  have hmarker := fixed_of_read (isBlind_of_mem (.head _)).isPiecewise hclean hcleaned
  have hoperators := fixed_of_read (isPiecewise_foldl isBlind_operators) hjoined hr
  intro x hx
  refine ⟨map_inj_left.mp (hsqueeze.symm.trans (map_id' xs).symm) x hx, fun rule hrule => ?_⟩
  rcases mem_cons.mp hrule with rfl | hrule
  · exact ((isBlind_of_mem (.head _)).eq_self_iff (hplain x hx)).mp (hmarker x hx)
  · rcases mem_cons.mp hrule with rfl | hrule
    · exact ((isBlind_of_mem (.tail _ (.head _))).eq_self_iff (hplain x hx)).mp (hsysdate x hx)
    · exact (foldl_blindly_iff isBlind_operators (isFree_of_literal h hx) (hplain x hx)).mp (hoperators x hx) rule hrule

/-! ## Whole expressions -/

theorem convert_eq (h : convert t = .ok r) : r = if Text.isBlankText t then t else convertUnchecked t := by
  simp only [convert] at h
  split at h
  · rename_i hblank
    rw [if_pos hblank, Except.ok.inj h]
  · rename_i hblank
    rw [if_neg hblank]
    split at h
    · exact (Except.ok.inj h).symm
    · cases h

/-- For literals without parentheses, commas, equal signs, bars and line breaks: the result has
    the literals of the source exactly if each of them is verbatim. -/
theorem literals_kept_iff_verbatim (hxs : literals? t = some xs) (hplain : ∀ x ∈ xs, ∀ c ∈ x, c ∉ joints)
    (hdate : DateFree (cleaned t)) (h : convert t = .ok r) : literals? r = some xs ↔ ∀ x ∈ xs, Verbatim x := by
  have hread : quoting.read (outside []) t = outside xs := read_eq_iff.mpr ⟨hxs, hplain⟩
  rw [convert_eq h]
  split
  · -- A blank text has no literals.
    rename_i hblank
    have hfree := isFree_of_blank fun c hc => List.all_eq_true.mp hblank c hc
    rw [read_outside hfree] at hread
    cases hread
    exact ⟨fun _ x hx => (by cases hx), fun _ => hxs⟩
  · refine ⟨fun hr => verbatim_of_kept hdate hread (read_eq_iff.mpr ⟨hr, hplain⟩), fun hverbatim => ?_⟩
    exact (read_eq_iff.mp (kept_of_verbatim hverbatim hdate hread)).1

/-- Words that only begin or end like an operator or a marker are left alone. -/
theorem andesRows_kept : literals? "NVL(IN_X, 'ANDES') <> 'NO_IN_'".toList = some ["ANDES".toList, "NO_IN_".toList] ∧
      convert "NVL(IN_X, 'ANDES') <> 'NO_IN_'".toList = .ok "coalesce(X, 'ANDES') != 'NO_IN_'".toList ∧
      literals? "coalesce(X, 'ANDES') != 'NO_IN_'".toList = some ["ANDES".toList, "NO_IN_".toList] := by
  have hxs : literals? "NVL(IN_X, 'ANDES') <> 'NO_IN_'".toList = some ["ANDES".toList, "NO_IN_".toList] := by decide
  have hconvert : convert "NVL(IN_X, 'ANDES') <> 'NO_IN_'".toList = .ok "coalesce(X, 'ANDES') != 'NO_IN_'".toList := by
    decide +kernel
  exact ⟨hxs, hconvert, (literals_kept_iff_verbatim hxs (by decide) (by decide +kernel) hconvert).mpr (by decide +kernel)⟩

/-- A word of a literal taken for an operator. -/
theorem saltAndPepper_rewritten :
    literals? "X = 'SALT AND PEPPER'".toList = some ["SALT AND PEPPER".toList] ∧ DateFree "X = 'SALT AND PEPPER'".toList ∧
      convert "X = 'SALT AND PEPPER'".toList = .ok "X == 'SALT && PEPPER'".toList ∧
      literals? "X == 'SALT && PEPPER'".toList = some ["SALT && PEPPER".toList] := by
  decide +kernel

end MappingFlow.Expression
