/-
  MappingFlow.Proofs.Text.Splitting — texts taken apart at a separator or at their blanks.

  A walk for a separator passes over every character at which the separator does not begin
  (`splitFrom_pass`); so a piece without the first character of the separator stays whole
  in front of it (`split_append`, `splitFirst?_append`). Trimming takes off the blanks
  around a text that neither begins nor ends with one (`trim_append`).
-/

import MappingFlow.Text.Blank
import MappingFlow.Text.Search

namespace MappingFlow.Text

open List

variable {sep a b t q : List Char}

theorem mem_of_isPrefixOf (h : sep.isPrefixOf t) (hd : d ∈ sep) : d ∈ t :=
  ( isPrefixOf_iff_prefix.mp h).subset hd

theorem isPrefixOf_cons_of_ne (h : c ≠ s) : (s :: sep).isPrefixOf (c :: t) = false := by
  rw [List.isPrefixOf, beq_eq_false_iff_ne.mpr (Ne.symm h), Bool.false_and]

theorem isPrefixOf_append (sep t : List Char) : sep.isPrefixOf (sep ++ t) = true :=
  isPrefixOf_iff_prefix.mpr (prefix_append sep t)

/-! ## At every separator -/

theorem splitFrom_skip (sep x t) : splitFrom sep x.length (x ++ t) = splitFrom sep 0 t := by
  induction x with
  | nil => rfl
  | cons c x ih => exact ih

theorem splitFrom_pass (h : sep.isPrefixOf (c :: t) = false) (ht : splitFrom sep 0 t = q :: qs) :
    splitFrom sep 0 (c :: t) = (c :: q) :: qs := by
  rw [splitFrom, h, ht]
  rfl

theorem splitFrom_append (ha : s ∉ a) (ht : splitFrom (s :: sep) 0 t = q :: qs) :
    splitFrom (s :: sep) 0 (a ++ t) = (a ++ q) :: qs := by
  induction a with
  | nil => exact ht
  | cons c a ih =>
    obtain ⟨hc, ha⟩ := not_or.mp (mt mem_cons.mpr ha)
    exact splitFrom_pass (isPrefixOf_cons_of_ne (Ne.symm hc)) (ih ha)

theorem split_sep (s : Char) (sep t : List Char) : split (s :: sep) (s :: sep ++ t) = [] :: split (s :: sep) t := by
  have hprefix : (s :: sep).isPrefixOf (s :: (sep ++ t)) = true := isPrefixOf_append (s :: sep) t
  rw [split, cons_append, splitFrom, hprefix]
  exact congrArg ([] :: ·) (splitFrom_skip (s :: sep) sep t)

theorem split_append (ha : s ∉ a) (t) : split (s :: sep) (a ++ (s :: sep ++ t)) = a :: split (s :: sep) t := by
  have hsplit := splitFrom_append ha (split_sep s sep t)
  rwa [append_nil] at hsplit

theorem split_of_not_mem (ha : s ∉ a) : split (s :: sep) a = [a] := by
  have hsplit : split (s :: sep) (a ++ []) = [a ++ []] := splitFrom_append ha rfl
  rwa [append_nil] at hsplit

/-! ## At the first separator -/

theorem splitFirst?_eq_none (hd : d ∈ sep) (ht : d ∉ t) : splitFirst? sep t = none := by
  induction t with
  | nil =>
    obtain ⟨s, sep, rfl⟩ := exists_cons_of_ne_nil (ne_nil_of_mem hd)
    rfl
  | cons c t ih =>
    have hprefix : sep.isPrefixOf (c :: t) = false := Bool.eq_false_iff.mpr fun h => ht (mem_of_isPrefixOf h hd)
    rw [splitFirst?, hprefix, ih fun hmem => ht (.tail _ hmem)]
    rfl

theorem splitFirst?_append (ha : s ∉ a) : splitFirst? (s :: sep) (a ++ (s :: sep ++ b)) = some (a, b) := by
  induction a with
  | nil =>
    have hprefix : (s :: sep).isPrefixOf (s :: (sep ++ b)) = true := isPrefixOf_append (s :: sep) b
    rw [nil_append, cons_append, splitFirst?, hprefix, if_pos rfl]
    exact congrArg (fun rest => some ([], rest)) drop_left
  | cons c a ih =>
    obtain ⟨hc, ha⟩ := not_or.mp (mt mem_cons.mpr ha)
    rw [cons_append, splitFirst?, isPrefixOf_cons_of_ne (Ne.symm hc), ih ha]
    rfl

/-! ## At the blanks -/

theorem trimLeft_append (ha : ∀ c ∈ a, isBlank c) (ht : ∀ c, t.head? = some c → isBlank c = false) :
    trimLeft (a ++ t) = t := by
  rw [trimLeft, dropWhile_append_of_pos ha]
  cases t with
  | nil => rfl
  | cons c t => rw [dropWhile_cons, ht c rfl]; rfl

theorem trim_append (ha : ∀ c ∈ a, isBlank c) (hb : ∀ c ∈ b, isBlank c)
    (hfirst : ∀ c, t.head? = some c → isBlank c = false) (hlast : ∀ c, t.getLast? = some c → isBlank c = false) :
    trim (a ++ (t ++ b)) = t := by
  have hleft : trimLeft (a ++ (t ++ b)) = trimLeft (t ++ b) := dropWhile_append_of_pos ha
  rw [trim, hleft]
  cases t with
  | nil =>
    have hblank : trimLeft b = [] := by
      have := trimLeft_append (t := []) hb (by simp)
      rwa [append_nil] at this
    rw [nil_append, hblank]
    rfl
  | cons c t =>
    have hkeep : trimLeft (c :: t ++ b) = c :: t ++ b := trimLeft_append (a := []) (by simp) fun d hd => hfirst d hd
    rw [hkeep, trimRight, reverse_append, trimLeft_append, reverse_reverse]
    · exact fun d hd => hb d (mem_reverse.mp hd)
    · intro d hd
      rw [head?_reverse] at hd
      exact hlast d hd

theorem trim_eq_self (hfirst : ∀ c, t.head? = some c → isBlank c = false)
    (hlast : ∀ c, t.getLast? = some c → isBlank c = false) : trim t = t := by
  have htrim := trim_append (a := []) (b := []) (by simp) (by simp) hfirst hlast
  rwa [nil_append, append_nil] at htrim

end MappingFlow.Text
