/-
  MappingFlow.Proofs.Pattern.Replacing — where a pattern matches, and what is left of a
  text when its matches are replaced.

  `run` tries every way to read, so a pattern that can read from a place matches there
  (`run_isSome`, `at_eq_none_iff`). With `Reads` that decides where there is no match; a
  text without any stays as it is (`replaceAll_of_absent`). Where there is one, which way
  of reading is taken depends on the order of the choices: `run_many_greedy` and
  `run_many_lazy` tell how far a repetition goes, and `replaceFrom_match` goes on behind
  the match.
-/

import MappingFlow.Proofs.Pattern.Reads
import Mathlib.Data.List.Forall2

namespace MappingFlow

open List

variable {accepts : Char → Bool}

namespace Pattern

variable {p : Pattern} {before rest : List Char}

/-- What was captured before makes no difference. -/
theorem reads_regroup {t : Scan} (h : p.Reads s t) (groups) :
    ∃ groups', p.Reads ⟨s.before, s.rest, groups⟩ ⟨t.before, t.rest, groups'⟩ := by
  induction p generalizing s t groups with
  | nothing => rw [show t = s from h]; exact ⟨groups, rfl⟩
  | one accepts =>
    obtain ⟨c, rest, hr, hc, rfl⟩ := h
    exact ⟨groups, c, rest, hr, hc, rfl⟩
  | seq p q ihp ihq =>
    obtain ⟨u, hp, hq⟩ := h
    obtain ⟨groups₁, hp⟩ := ihp hp groups
    obtain ⟨groups₂, hq⟩ := ihq hq groups₁
    exact ⟨groups₂, _, hp, hq⟩
  | alt p q ihp ihq =>
    rcases h with h | h
    · obtain ⟨groups', h⟩ := ihp h groups
      exact ⟨groups', .inl h⟩
    · obtain ⟨groups', h⟩ := ihq h groups
      exact ⟨groups', .inr h⟩
  | many greedy accepts =>
    obtain ⟨cs, rest, hcs, hr, rfl⟩ := h
    exact ⟨groups, cs, rest, hcs, hr, rfl⟩
  | group i p ih =>
    obtain ⟨u, hu, rfl⟩ := h
    obtain ⟨groups', h⟩ := ih hu groups
    exact ⟨_, _, h, rfl⟩
  | ahead p ih =>
    obtain ⟨rfl, u, hu⟩ := h
    obtain ⟨groups', h⟩ := ih hu groups
    exact ⟨groups, rfl, _, h⟩
  | notAfter | wordEdge | finish =>
    obtain ⟨rfl, h⟩ := h
    exact ⟨groups, rfl, h⟩

/-! ## Every way to read is tried -/

theorem reads_longest_iff {t : Scan} : (longest accepts).Reads s t ↔
    ∃ x rest, x ≠ [] ∧ (∀ c ∈ x, accepts c) ∧ s.rest = x ++ rest ∧
      t = ⟨x.reverse ++ s.before, rest, s.groups⟩ := by
  constructor
  · rintro ⟨u, ⟨d, rest, hrest, hd, rfl⟩, x, rest', hx, hrest', rfl⟩
    simp only at hrest'
    subst hrest'
    exact ⟨d :: x, rest', cons_ne_nil d x, forall_mem_cons.mpr ⟨hd, hx⟩, hrest, by simp⟩
  · rintro ⟨x, rest, hne, hx, hrest, rfl⟩
    obtain ⟨d, x, rfl⟩ := exists_cons_of_ne_nil hne
    obtain ⟨hd, hx⟩ := forall_mem_cons.mp hx
    exact ⟨_, ⟨d, x ++ rest, hrest, hd, rfl⟩, x, rest, hx, rfl, by simp⟩

theorem repeatFrom_isSome (hcs : ∀ c ∈ cs, accepts c) (hk : (k ⟨cs.reverse ++ before, rest, groups⟩).isSome) :
    (repeatFrom greedy accepts groups k before (cs ++ rest)).isSome = true := by
  induction cs generalizing before with
  | nil =>
    -- The repetition may stop at once, so it succeeds whatever going on would give.
    rw [nil_append]
    unfold repeatFrom
    split
    · exact hk
    · split
      · split <;> split <;> simp_all
      · exact hk
  | cons c cs ih =>
    have hrest := @ih (c :: before) (fun d hd => hcs d (.tail _ hd)) (by simpa using hk)
    clear ih
    rw [cons_append, repeatFrom, if_pos (hcs c (.head _))]
    split <;> split <;> simp_all

theorem run_isSome {t : Scan} (h : p.Reads s t) (hk : (k t).isSome) : (p.run s k).isSome = true := by
  induction p generalizing s t k with
  | nothing => rw [show t = s from h] at hk; exact hk
  | one accepts =>
    obtain ⟨c, rest, hr, hc, rfl⟩ := h
    simpa only [run, hr, hc, if_true] using hk
  | seq p q ihp ihq =>
    obtain ⟨u, hp, hq⟩ := h
    exact ihp hp (ihq hq hk)
  | alt p q ihp ihq =>
    simp only [run]
    split
    · rfl
    · rename_i hnone
      rcases h with h | h
      · exact absurd hnone (Option.isSome_iff_ne_none.mp (ihp h hk))
      · exact ihq h hk
  | many greedy accepts =>
    obtain ⟨cs, rest, hcs, hr, rfl⟩ := h
    rw [run, hr]
    exact repeatFrom_isSome hcs hk
  | group i p ih =>
    obtain ⟨u, hu, rfl⟩ := h
    exact ih hu hk
  | ahead p ih =>
    obtain ⟨rfl, u, hu⟩ := h
    simpa only [run, ih hu (k := some) rfl, if_true] using hk
  | notAfter accepts =>
    obtain ⟨rfl, ha⟩ := h
    simpa only [run, ha, Bool.false_eq_true, if_false] using hk
  | wordEdge =>
    obtain ⟨rfl, he⟩ := h
    simpa only [run, he, if_true] using hk
  | finish =>
    obtain ⟨rfl, hf⟩ := h
    simpa only [run, hf, if_true] using hk

theorem at_eq_none_iff : p.at? before rest = none ↔ ∀ t, ¬ p.Reads ⟨before, rest, []⟩ t := by
  rw [at?, Option.map_eq_none_iff]
  refine ⟨fun h t ht => ?_, fun h => ?_⟩
  · have := run_isSome ht (k := some) rfl
    rw [h] at this
    cases this
  · cases hrun : p.run ⟨before, rest, []⟩ some with
    | none => rfl
    | some r =>
      obtain ⟨t, ht, -⟩ := run_reads hrun
      exact absurd ht (h t)

/-! ## Texts without a match -/

def Absent (p : Pattern) (t : List Char) : Prop :=
  ∀ before rest, t = before.reverse ++ rest → p.at? before rest = none

theorem findFrom_eq_none_iff : p.findFrom? before rest = none ↔
    ∀ u v, rest = u ++ v → p.at? (u.reverse ++ before) v = none := by
  induction rest generalizing before with
  | nil =>
    rw [findFrom?]
    refine ⟨fun h u v huv => ?_, fun h => h [] [] rfl⟩
    obtain ⟨rfl, rfl⟩ := append_eq_nil_iff.mp huv.symm
    exact h
  | cons c rest ih =>
    rw [findFrom?]
    cases hat : p.at? before (c :: rest) with
    | some m => exact ⟨fun h => (by cases h), fun h => absurd (hat.symm.trans (h [] _ rfl)) (by simp)⟩
    | none =>
      simp only [ih]
      refine ⟨fun h u v huv => ?_, fun h u v huv => ?_⟩
      · cases u with
        | nil => rw [← nil_append (c :: rest)] at hat; cases huv; exact hat
        | cons d u =>
          obtain ⟨rfl, rfl⟩ := List.cons.inj huv
          simpa using h u v rfl
      · simpa using h (c :: u) v (by rw [huv]; rfl)

theorem occursIn_eq_false_iff : p.occursIn t = false ↔ p.Absent t := by
  rw [occursIn, find?, Option.isSome_eq_false_iff, Option.isNone_iff_eq_none, findFrom_eq_none_iff]
  refine ⟨fun h before rest ht => ?_, fun h u v huv => ?_⟩
  · simpa using h before.reverse rest ht
  · simpa using h u.reverse v (by simpa using huv)

variable {write : Match → List Char}

/-- Without a match in it, a stretch of text is copied. -/
theorem replaceFrom_pass (h : ∀ u v, x = u ++ v → v ≠ [] → p.at? (u.reverse ++ before) (v ++ rest) = none) :
    p.replaceFrom write before 0 (x ++ rest) = x ++ p.replaceFrom write (x.reverse ++ before) 0 rest := by
  induction x generalizing before with
  | nil => rfl
  | cons c x ih =>
    have hhere : p.at? before (c :: (x ++ rest)) = none := h [] (c :: x) rfl (by simp)
    have hlater := @ih (c :: before) fun u v huv hv => by
      simpa using h (c :: u) v (by rw [huv]; rfl) hv
    simp only [cons_append, replaceFrom, hhere, hlater, reverse_cons, append_assoc,
      nil_append]

theorem replaceFrom_of_none (h : ∀ u v, x = u ++ v → p.at? (u.reverse ++ before) v = none) :
    p.replaceFrom write before 0 x = x := by
  have hpass : p.replaceFrom write before 0 (x ++ []) = x ++ p.replaceFrom write (x.reverse ++ before) 0 [] :=
    replaceFrom_pass fun u v huv _ => by simpa using h u v huv
  have hend : p.at? (x.reverse ++ before) [] = none := h x [] (by simp)
  rw [← append_nil x, hpass, append_nil]
  simp only [replaceFrom, hend, Option.map_none, Option.getD_none, append_nil]

theorem replaceAll_of_absent (h : p.Absent t) : p.replaceAll write t = t :=
  replaceFrom_of_none fun u v huv => by simpa using h u.reverse v (by simpa using huv)

/-! ## Behind a match -/

theorem replaceFrom_skip (x) :
    p.replaceFrom write before x.length (x ++ rest) = p.replaceFrom write (x.reverse ++ before) 0 rest := by
  induction x generalizing before with
  | nil => rfl
  | cons c x ih =>
    simp only [cons_append, length_cons, replaceFrom, ih, reverse_cons, append_assoc,
      nil_append]

theorem replaceFrom_match (hat : p.at? before (x ++ rest) = some m) (hm : m.matched = x) (hx : x ≠ []) :
    p.replaceFrom write before 0 (x ++ rest) = write m ++ p.replaceFrom write (x.reverse ++ before) 0 rest := by
  cases x with
  | nil => exact absurd rfl hx
  | cons c x =>
    have hskip : p.replaceFrom write (c :: before) x.length (x ++ rest) = _ := replaceFrom_skip x
    simp only [cons_append] at hat
    simp only [cons_append, replaceFrom, hat, hm, length_cons, hskip, reverse_cons,
      append_assoc, nil_append]

/-- Before the first match there is none. -/
theorem findFrom_first (h : p.findFrom? before rest = some m) : ∃ x, rest = x ++ (m.matched ++ m.after) ∧
    m.before = x.reverse ++ before ∧ p.at? m.before (m.matched ++ m.after) = some m ∧
    ∀ u v, x = u ++ v → v ≠ [] → p.at? (u.reverse ++ before) (v ++ (m.matched ++ m.after)) = none := by
  have first : ∃ x rest', rest = x ++ rest' ∧ p.at? (x.reverse ++ before) rest' = some m ∧
      ∀ u v, x = u ++ v → v ≠ [] → p.at? (u.reverse ++ before) (v ++ rest') = none := by
    fun_induction findFrom? p before rest with
    | case1 before => exact ⟨[], [], rfl, h, by simp_all⟩
    | case2 before c rest m' hat => exact ⟨[], _, rfl, hat.trans h, by simp_all⟩
    | case3 before c rest hnone ih =>
      obtain ⟨x, rest', rfl, hat, hfirst⟩ := ih h
      refine ⟨c :: x, rest', rfl, by simpa using hat, fun u v huv hv => ?_⟩
      cases u with
      | nil => cases huv; exact hnone
      | cons e u =>
        obtain ⟨rfl, rfl⟩ := List.cons.inj huv
        simpa using hfirst u v rfl hv
  obtain ⟨x, rest', rfl, hat, hfirst⟩ := first
  have hbefore : m.before = x.reverse ++ before := by
    obtain ⟨t, -, rfl⟩ := at_reads hat
    rfl
  have hrest := (at_reads hat).rest_eq
  exact ⟨x, by rw [← hrest], hbefore, by rw [hbefore, ← hrest, hat], hrest ▸ hfirst⟩

/-- The first match replaced, and the rest of the text. -/
theorem replaceAll_find (h : p.find? t = some m) (hne : m.matched ≠ []) :
    p.replaceAll write t = m.before.reverse ++ (write m ++ p.replaceFrom write (m.matched.reverse ++ m.before) 0 m.after) := by
  obtain ⟨x, ht, hbefore, hat, hfirst⟩ := findFrom_first h
  rw [append_nil] at hbefore
  rw [replaceAll, ht, replaceFrom_pass hfirst, append_nil, ← hbefore, replaceFrom_match hat rfl hne, hbefore,
    reverse_reverse]

/-! ## Which way is taken -/

/-- A match is given by where it ends and by its groups. -/
theorem at_of_run (h : p.run ⟨before, x ++ rest, []⟩ some = some ⟨b, rest, groups⟩) :
    p.at? before (x ++ rest) = some ⟨before, x, rest, groups⟩ := by
  rw [at?, h]
  simp [toMatch, Span.text_append]

@[simp] theorem run_all_cons (p ps) (s : Scan) : (all (p :: ps)).run s k = p.run s fun t => (all ps).run t k := by
  cases ps <;> rfl

@[simp] theorem run_char (c : Char) : (char c).run ⟨before, c :: rest, groups⟩ k = k ⟨c :: before, rest, groups⟩ := by
  simp [char, run]

theorem run_all_peel (h : (all (p :: ps)).run s k = some r) : ∃ t, p.Reads s t ∧ (all ps).run t k = some r := by
  rw [run_all_cons] at h
  exact run_reads h

theorem run_char_ne (h : rest.head? ≠ some c) : (char c).run ⟨before, rest, groups⟩ k = none := by
  cases rest with
  | nil => rfl
  | cons d rest =>
    have hd : d ≠ c := fun hd => h (by rw [hd]; rfl)
    simp [char, run, hd]

theorem run_caseless {name n : List Char} (h : Forall₂ (fun c d => Text.sameLetter c d = true) name n) :
    (caseless name).run ⟨before, n ++ rest, groups⟩ k = k ⟨n.reverse ++ before, rest, groups⟩ := by
  induction h generalizing before with
  | nil => rfl
  | @cons c d name n hcd _ ih =>
    have hrest := @ih (d :: before)
    rw [caseless] at hrest
    rw [caseless, map_cons, run_all_cons]
    simp only [cons_append, run, hcd, if_true, hrest, reverse_cons, append_assoc,
      nil_append]

theorem run_literal (t) : (literal t).run ⟨before, t ++ rest, groups⟩ k = k ⟨t.reverse ++ before, rest, groups⟩ := by
  induction t generalizing before with
  | nil => rfl
  | cons c t ih =>
    have hrest := @ih (c :: before)
    rw [literal] at hrest
    rw [literal, map_cons, run_all_cons, cons_append, run_char, hrest]
    simp

/-- A greedy repetition goes as far as it can, if what follows matches there. -/
theorem run_many_greedy (hx : ∀ c ∈ x, accepts c) (hstop : rest.head?.any accepts = false)
    (hk : k ⟨x.reverse ++ before, rest, groups⟩ = some r) :
    (many true accepts).run ⟨before, x ++ rest, groups⟩ k = some r := by
  simp only [run]
  induction x generalizing before with
  | nil =>
    cases rest with
    | nil => exact hk
    | cons c rest =>
      have hc : accepts c = false := hstop
      simpa [repeatFrom, hc] using hk
  | cons c x ih =>
    have hrest := @ih (c :: before) (fun d hd => hx d (.tail _ hd)) (by simpa using hk)
    simp only [cons_append, repeatFrom, hx c (.head _), if_true, hrest]

/-- A greedy repetition before something that always matches goes as far as it can. -/
theorem greedy_last (hk : ∀ t, (k t).isSome) (h : (many true accepts).run ⟨before, rest, groups⟩ k = some r) :
    ∃ x rest', (∀ c ∈ x, accepts c) ∧ rest = x ++ rest' ∧ rest'.head?.any accepts = false ∧
      k ⟨x.reverse ++ before, rest', groups⟩ = some r := by
  obtain ⟨r', hr'⟩ := Option.isSome_iff_exists.mp
    (hk ⟨(rest.takeWhile accepts).reverse ++ before, rest.dropWhile accepts, groups⟩)
  have hx : ∀ c ∈ rest.takeWhile accepts, accepts c = true := all_eq_true.mp all_takeWhile
  have hstop : (rest.dropWhile accepts).head?.any accepts = false := by
    have := head?_dropWhile_not accepts rest
    cases hd : (rest.dropWhile accepts).head? with
    | none => rfl
    | some d => simpa [hd] using this
  have hrun := run_many_greedy hx hstop hr'
  rw [takeWhile_append_dropWhile, h] at hrun
  exact ⟨_, _, hx, takeWhile_append_dropWhile.symm, hstop, hr'.trans hrun.symm⟩

/-- A lazy repetition stops at the first place where what follows matches. -/
theorem run_many_lazy (hx : ∀ c ∈ x, accepts c)
    (hfirst : ∀ u v, x = u ++ v → v ≠ [] → k ⟨u.reverse ++ before, v ++ rest, groups⟩ = none)
    (hk : k ⟨x.reverse ++ before, rest, groups⟩ = some r) :
    (many false accepts).run ⟨before, x ++ rest, groups⟩ k = some r := by
  simp only [run]
  induction x generalizing before with
  | nil =>
    cases rest with
    | nil => exact hk
    | cons c rest =>
      simp only [reverse_nil, nil_append] at hk
      simp only [nil_append, repeatFrom, hk, Bool.false_eq_true, if_false]
      split <;> rfl
  | cons c x ih =>
    have hhere : k ⟨before, c :: (x ++ rest), groups⟩ = none := hfirst [] (c :: x) rfl (by simp)
    have hrest := @ih (c :: before) (fun d hd => hx d (.tail _ hd))
      (fun u v huv hv => by simpa using hfirst (c :: u) v (by rw [huv]; rfl) hv) (by simpa using hk)
    simp only [cons_append, repeatFrom, hx c (.head _), if_true, hhere, hrest,
      Bool.false_eq_true, if_false]

/-- The other way round: where a lazy repetition stopped, what follows matched for the first time. -/
theorem lazy_first (h : (many false accepts).run ⟨before, rest, groups⟩ k = some r) :
    ∃ x rest', (∀ c ∈ x, accepts c) ∧ rest = x ++ rest' ∧ k ⟨x.reverse ++ before, rest', groups⟩ = some r ∧
      ∀ u v, x = u ++ v → v ≠ [] → k ⟨u.reverse ++ before, v ++ rest', groups⟩ = none := by
  rw [run] at h
  dsimp only at h
  generalize hg : false = greedy at h
  fun_induction repeatFrom greedy accepts groups k before rest with
  | case1 before => exact ⟨[], [], by simp, rfl, h, by simp_all⟩
  | case2 | case3 => simp_all
  | case4 before c rest _ _ s hs => exact ⟨[], _, by simp, rfl, hs.trans h, by simp_all⟩
  | case5 before c rest hc _ hnone ih =>
    obtain ⟨x, rest', hx, rfl, hk, hfirst⟩ := ih h
    refine ⟨c :: x, rest', forall_mem_cons.mpr ⟨hc, hx⟩, rfl, by simpa using hk, fun u v huv hv => ?_⟩
    cases u with
    | nil => cases huv; exact hnone
    | cons d u =>
      obtain ⟨rfl, rfl⟩ := List.cons.inj huv
      simpa using hfirst u v rfl hv
  | case6 before c rest => exact ⟨[], _, by simp, rfl, h, by simp_all⟩

end Pattern

/-! ## What a template writes -/

namespace Template

@[simp] theorem expand_append (s t) (m : Match) : expand (s ++ t) m = s.expand m ++ t.expand m :=
  flatMap_append

@[simp] theorem expand_plain (t) (m : Match) : (plain t).expand m = t := by
  induction t with
  | nil => rfl
  | cons c t ih => exact congrArg (c :: ·) ih

@[simp] theorem expand_nil (m : Match) : expand [] m = [] := rfl

@[simp] theorem expand_group (i : Nat) (t : Template) (m : Match) :
    expand (.group i :: t) m = m.group i ++ t.expand m := rfl

end Template

theorem Pattern.substitute_plain (p : Pattern) (v t : List Char) :
    p.substitute (Template.plain v) t = p.replaceAll (fun _ => v) t := by
  rw [substitute]
  congr 1
  funext m
  exact Template.expand_plain v m

end MappingFlow
