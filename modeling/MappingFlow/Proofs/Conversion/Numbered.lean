/-
  MappingFlow.Proofs.Conversion.Numbered — names with a number at their end.

  The number of a name is all the digits at its end, but at least one character is left in
  front of it, a digit too if there is nothing else (`IsNumbered`). A search for the number
  tries the shortest name first, so it finds exactly this one (`group_one_iff`).
-/

import MappingFlow.Conversion.Lookup
import MappingFlow.Proofs.Pattern.Replacing

namespace MappingFlow.Conversion

open Pattern Text Option
open List hiding all

/-- Digits, and at most one line break behind them. -/
def IsNumber (t : List Char) : Prop :=
  ∃ digits, digits ≠ [] ∧ (∀ d ∈ digits, isDigit d = true) ∧ (t = digits ∨ t = digits ++ ['\n'])

/-- `name` is `base` with a number behind it that takes as many digits as it can. -/
structure IsNumbered (base name : List Char) : Prop where
  ne_nil : base ≠ []
  inLine : '\n' ∉ base
  whole : base.tail.getLast?.any isDigit = false
  split : ∃ number, name = base ++ number ∧ IsNumber number

theorem IsNumber.cons {d : Char} {t : List Char} (hd : isDigit d) (h : IsNumber t) : IsNumber (d :: t) := by
  obtain ⟨digits, -, hdigits, ht⟩ := h
  refine ⟨d :: digits, cons_ne_nil d digits, forall_mem_cons.mpr ⟨hd, hdigits⟩, ?_⟩
  rcases ht with rfl | rfl
  · exact .inl rfl
  · exact .inr rfl

theorem IsNumber.isDigit (h : IsNumber (v ++ t)) (hc : c ∈ v) (hline : c ≠ '\n') : isDigit c = true := by
  obtain ⟨digits, -, hdigits, ht⟩ := h
  have hmem : c ∈ v ++ t := mem_append_left t hc
  rcases ht with ht | ht
  · exact hdigits c (ht ▸ hmem)
  · rw [ht, mem_append, mem_singleton] at hmem
    exact hdigits c (hmem.resolve_right hline)

/-! ## The search for the number -/

/-- The pattern takes a number at the end of the text, and leaves the first group as it is. -/
structure TakesNumber (p : Pattern) : Prop where
  isSome_iff : ∀ s : Scan, (p.run s fun t => finish.run t some).isSome = true ↔ IsNumber s.rest
  group : ∀ s r : Scan, (p.run s fun t => finish.run t some) = some r → r.groups.lookup 1 = s.groups.lookup 1

theorem run_finish (h : finish.run s some = some r) : r = s ∧ (s.rest = [] ∨ s.rest = ['\n']) := by
  obtain ⟨t, ⟨rfl, hend⟩, hr⟩ := run_reads h
  exact ⟨(some.inj hr).symm, hend⟩

theorem isSome_finish_iff {p : Pattern} : (p.run s fun t => finish.run t some).isSome = true ↔
    ∃ t, p.Reads s t ∧ (t.rest = [] ∨ t.rest = ['\n']) := by
  constructor
  · intro h
    obtain ⟨r, hr⟩ := isSome_iff_exists.mp h
    obtain ⟨t, ht, hend⟩ := run_reads hr
    exact ⟨t, ht, (run_finish hend).2⟩
  · rintro ⟨t, ht, hend⟩
    exact run_isSome ht (by simp only [run, hend, if_true, isSome_some])

theorem exists_reads_longest_iff :
    (∃ t, (longest isDigit).Reads s t ∧ (t.rest = [] ∨ t.rest = ['\n'])) ↔ IsNumber s.rest := by
  simp only [reads_longest_iff]
  constructor
  · rintro ⟨_, ⟨digits, rest, hne, hdigits, hrest, rfl⟩, hend⟩
    refine ⟨digits, hne, hdigits, ?_⟩
    rcases hend with rfl | rfl
    · exact .inl (hrest.trans (append_nil digits))
    · exact .inr hrest
  · rintro ⟨digits, hne, hdigits, hrest | hrest⟩
    · exact ⟨_, ⟨digits, [], hne, hdigits, by rw [hrest, append_nil], rfl⟩, .inl rfl⟩
    · exact ⟨_, ⟨digits, ['\n'], hne, hdigits, hrest, rfl⟩, .inr rfl⟩

theorem takesNumber_longest : TakesNumber (longest isDigit) where
  isSome_iff s := isSome_finish_iff.trans exists_reads_longest_iff
  group s r h := by
    obtain ⟨t, ht, hend⟩ := run_reads h
    rw [(run_finish hend).1, reads_groups rfl ht]

theorem takesNumber_group : TakesNumber (group 2 (longest isDigit)) where
  isSome_iff s := by
    rw [isSome_finish_iff, ← exists_reads_longest_iff]
    constructor
    · rintro ⟨_, ⟨u, hu, rfl⟩, hend⟩
      exact ⟨u, hu, hend⟩
    · rintro ⟨u, hu, hend⟩
      exact ⟨_, ⟨u, hu, rfl⟩, hend⟩
  group s r h := by
    obtain ⟨_, ⟨u, hu, rfl⟩, hend⟩ := run_reads h
    rw [(run_finish hend).1, ← reads_groups rfl hu]
    rfl

/-- A name, and a number that is taken by `p`. -/
def numbering (p : Pattern) : Pattern := all [group 1 (shortest isInLine), p, finish]

/-- What is tried behind the part of `name` that has been read: it is the name, and the number follows. -/
def numberBehind (p : Pattern) (name : List Char) (s : Scan) : Option Scan :=
  p.run { s with groups := (1, ⟨name, s.rest⟩) :: s.groups } fun t => finish.run t some

variable {p : Pattern} {name base : List Char} {c : Char} {t : List Char}

theorem run_numbering (hc : isInLine c) : (numbering p).run ⟨[], c :: t, []⟩ some =
    (many false isInLine).run ⟨[c], t, []⟩ (numberBehind p (c :: t)) := by
  simp only [numbering, all, run, shortest, hc, if_true]
  rfl

theorem numberBehind_isSome_iff (hp : TakesNumber p) :
    (numberBehind p name s).isSome ↔ IsNumber s.rest := hp.isSome_iff _

theorem numberBehind_group (hp : TakesNumber p) (h : numberBehind p (c :: (x ++ rest)) ⟨before, rest, []⟩ = some r) :
    (toMatch [] (c :: (x ++ rest)) r).group 1 = c :: x := by
  have hgroup := hp.group _ _ h
  rw [Match.group, if_neg Nat.one_ne_zero, toMatch, hgroup]
  exact Span.text_append (c :: x) rest

theorem isNumbered_of_at (hp : TakesNumber p) (h : (numbering p).at? [] name = some m) :
    IsNumbered (m.group 1) name := by
  obtain ⟨r, hr, rfl⟩ := map_eq_some_iff.mp h
  cases name with
  | nil => cases hr
  | cons c t =>
    by_cases hc : isInLine c = true
    · rw [run_numbering hc] at hr
      obtain ⟨x, rest, hx, rfl, hrun, hfirst⟩ := lazy_first hr
      have hnumber : IsNumber rest := (numberBehind_isSome_iff hp).mp (isSome_iff_exists.mpr ⟨r, hrun⟩)
      rw [numberBehind_group hp hrun]
      refine ⟨cons_ne_nil c x, fun hmem => ?_, ?_, rest, rfl, hnumber⟩
      · have hline : ∀ d ∈ c :: x, isInLine d = true := forall_mem_cons.mpr ⟨hc, hx⟩
        exact absurd (hline _ hmem) (by decide)
      · rw [tail_cons]
        rcases eq_nil_or_concat x with rfl | ⟨y, d, rfl⟩
        · rfl
        · -- A digit at the end would have been taken for a part of the number.
          have hnone := hfirst y [d] (concat_eq_append ..) (cons_ne_nil _ _)
          rw [concat_eq_append, getLast?_append_of_ne_nil _ (cons_ne_nil _ _)]
          by_contra hd
          have hlonger : IsNumber (d :: rest) := hnumber.cons (by simpa using hd)
          exact Option.isSome_iff_ne_none.mp ((numberBehind_isSome_iff hp).mpr hlonger) hnone
    · simp only [numbering, all, run, shortest, hc, Bool.false_eq_true, if_false] at hr
      cases hr

theorem at_of_isNumbered (hp : TakesNumber p) (h : IsNumbered base name) :
    ∃ m, (numbering p).at? [] name = some m ∧ m.group 1 = base := by
  obtain ⟨hne, hline, hwhole, number, rfl, hnumber⟩ := h
  obtain ⟨c, x, rfl⟩ := exists_cons_of_ne_nil hne
  have hin : ∀ d ∈ c :: x, isInLine d = true := fun d hd => bne_iff_ne.mpr fun h => hline (h ▸ hd)
  obtain ⟨hc, hx⟩ := forall_mem_cons.mp hin
  have hbehind : (numberBehind p (c :: (x ++ number)) ⟨x.reverse ++ [c], number, []⟩).isSome = true :=
    (numberBehind_isSome_iff hp).mpr hnumber
  obtain ⟨r, hr⟩ := isSome_iff_exists.mp hbehind
  have hrun : (numbering p).run ⟨[], c :: (x ++ number), []⟩ some = some r := by
    rw [run_numbering hc]
    refine run_many_lazy hx (fun u v huv hv => ?_) hr
    -- A shorter name would leave a digit at the end of the whole one.
    by_contra hsome
    have hlonger : IsNumber (v ++ number) := (numberBehind_isSome_iff hp).mp (isSome_iff_ne_none.mpr hsome)
    obtain ⟨d, hd⟩ := ne_none_iff_exists'.mp (mt getLast?_eq_none_iff.mp hv)
    have hmem : d ∈ c :: x := huv ▸ mem_cons_of_mem c (mem_append_right u (mem_of_getLast? hd))
    have hdigit : isDigit d = true := hlonger.isDigit (mem_of_getLast? hd) fun h => hline (h ▸ hmem)
    rw [tail_cons, huv, getLast?_append_of_ne_nil _ hv, hd, any_some, hdigit] at hwhole
    cases hwhole
  exact ⟨_, congrArg (Option.map _) hrun, numberBehind_group hp hr⟩

/-- What stands in front of the number is what is found. -/
theorem group_one_iff (hp : TakesNumber p) :
    ((numbering p).at? [] name).map (·.group 1) = some base ↔ IsNumbered base name := by
  rw [map_eq_some_iff]
  constructor
  · rintro ⟨m, hm, rfl⟩
    exact isNumbered_of_at hp hm
  · exact at_of_isNumbered hp

theorem numberedBase?_eq_some_iff {name base : String} :
    numberedBase? name = some base ↔ IsNumbered base.toList name.toList := by
  rw [numberedBase?, ← group_one_iff takesNumber_group, ← show numberedPattern = numbering _ from rfl]
  cases numberedPattern.at? [] name.toList with
  | none => simp
  | some m =>
    rw [map_some, map_some, some_inj, some_inj]
    constructor
    · rintro rfl
      exact String.toList_ofList.symm
    · intro h
      rw [h, String.ofList_toList]

theorem numberedBase?_eq_none_iff {name : String} : numberedBase? name = none ↔ ∀ base, ¬ IsNumbered base name.toList := by
  rw [eq_none_iff_forall_ne_some]
  constructor
  · intro h base hbase
    exact h (String.ofList base) (numberedBase?_eq_some_iff.mpr (String.toList_ofList ▸ hbase))
  · intro h base hbase
    exact h base.toList (numberedBase?_eq_some_iff.mp hbase)

/-- The name without the number at its end. -/
def unnumbered (name : String) : String := (numberedBase? name).getD name

theorem unnumbered_eq_self_iff {name : String} : unnumbered name = name ↔ ∀ base, ¬ IsNumbered base name.toList := by
  unfold unnumbered
  cases hbase : numberedBase? name with
  | none => exact iff_of_true rfl (numberedBase?_eq_none_iff.mp hbase)
  | some base =>
    have h := numberedBase?_eq_some_iff.mp hbase
    refine iff_of_false (fun heq => ?_) fun hnone => hnone base.toList h
    -- A number has at least one character, so the name is longer than what is left of it.
    obtain ⟨number, hsplit, digits, hne, -, hnumber⟩ := h.split
    rw [show base = name from heq] at hsplit
    obtain rfl : number = [] := self_eq_append_right.mp hsplit
    rcases hnumber with hnil | hnil
    · exact hne hnil.symm
    · exact cons_ne_nil _ _ (append_eq_nil_iff.mp hnil.symm).2

end MappingFlow.Conversion
