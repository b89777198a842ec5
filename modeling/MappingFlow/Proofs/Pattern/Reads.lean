/-
  MappingFlow.Proofs.Pattern.Reads — what a match has read.

  `Reads p s t` says that the pattern can take a scan from `s` to `t`, by some sequence of
  choices and whatever follows it. `run` tries these choices in order, so what it answers
  is an answer at a place the pattern reads up to (`run_reads`). Every later fact about
  matches is a fact about `Reads`:
  - `at_reads` / `atLeastOne_reads`: a match is what lies between two such places.
  - `find_reads`: the text around the first match, put together again, is the whole text.
  - `reads_groups`: a pattern without groups captures nothing.
-/

import MappingFlow.Pattern.Template

namespace MappingFlow

variable {before rest : List Char} {p : Pattern} {s t : Scan} {m : Match}

theorem Span.text_append (read rest : List Char) : (Span.mk (read ++ rest) rest).text = read := by
  simp [Span.text]

namespace Pattern

def Reads : Pattern → Scan → Scan → Prop
  | nothing, s, t => t = s
  | one accepts, s, t =>
    ∃ c rest, s.rest = c :: rest ∧ accepts c = true ∧ t = { s with before := c :: s.before, rest := rest }
  | seq p q, s, t => ∃ u, p.Reads s u ∧ q.Reads u t
  | alt p q, s, t => p.Reads s t ∨ q.Reads s t
  | many _ accepts, s, t =>
    ∃ cs rest, (∀ c ∈ cs, accepts c = true) ∧ s.rest = cs ++ rest ∧ t = ⟨cs.reverse ++ s.before, rest, s.groups⟩
  | group i p, s, t => ∃ u, p.Reads s u ∧ t = { u with groups := (i, ⟨s.rest, u.rest⟩) :: u.groups }
  | ahead p, s, t => t = s ∧ ∃ u, p.Reads s u
  | notAfter accepts, s, t => t = s ∧ s.before.head?.any accepts = false
  | wordEdge, s, t => t = s ∧ atWordEdge s = true
  | finish, s, t => t = s ∧ (s.rest = [] ∨ s.rest = ['\n'])

/-! ## Runs -/

theorem repeatFrom_reads {accepts : Char → Bool} (h : repeatFrom greedy accepts groups k before rest = some r) :
    ∃ cs rest', (∀ c ∈ cs, accepts c) ∧ rest = cs ++ rest' ∧ k ⟨cs.reverse ++ before, rest', groups⟩ = some r := by
  have goOn : ∀ {c before rest}, accepts c = true → (∃ cs rest', (∀ c ∈ cs, accepts c = true) ∧ rest = cs ++ rest' ∧
      k ⟨cs.reverse ++ c :: before, rest', groups⟩ = some r) → ∃ cs rest', (∀ d ∈ cs, accepts d = true) ∧
        c :: rest = cs ++ rest' ∧ k ⟨cs.reverse ++ before, rest', groups⟩ = some r := by
    rintro c before _ hc ⟨cs, rest', hcs, rfl, hk⟩
    exact ⟨c :: cs, rest', List.forall_mem_cons.mpr ⟨hc, hcs⟩, rfl, by simpa using hk⟩
  fun_induction repeatFrom greedy accepts groups k before rest with
  | case1 before => exact ⟨[], [], by simp, rfl, h⟩
  | case2 before c rest hc _ s hs ih => exact goOn hc (ih (hs.trans h))
  | case3 before c rest => exact ⟨[], _, by simp, rfl, h⟩
  | case4 before c rest _ _ s hs => exact ⟨[], _, by simp, rfl, hs.trans h⟩
  | case5 before c rest hc _ _ ih => exact goOn hc (ih h)
  | case6 before c rest => exact ⟨[], _, by simp, rfl, h⟩

theorem run_reads (h : p.run s k = some r) : ∃ t, p.Reads s t ∧ k t = some r := by
  induction p generalizing s k r with
  | nothing => exact ⟨s, rfl, h⟩
  | one accepts =>
    simp only [run] at h
    split at h
    · cases h
    · rename_i c rest hr
      rw [Option.ite_none_right_eq_some] at h
      exact ⟨_, ⟨c, rest, hr, h.1, rfl⟩, h.2⟩
  | seq p q ihp ihq =>
    obtain ⟨u, hu, hk⟩ := ihp h
    obtain ⟨t, ht, hk⟩ := ihq hk
    exact ⟨t, ⟨u, hu, ht⟩, hk⟩
  | alt p q ihp ihq =>
    simp only [run] at h
    split at h
    · rename_i t' ht'
      cases h
      obtain ⟨t, ht, hk⟩ := ihp ht'
      exact ⟨t, Or.inl ht, hk⟩
    · obtain ⟨t, ht, hk⟩ := ihq h
      exact ⟨t, Or.inr ht, hk⟩
  | many greedy accepts =>
    obtain ⟨cs, rest, hcs, hr, hk⟩ := repeatFrom_reads h
    exact ⟨_, ⟨cs, rest, hcs, hr, rfl⟩, hk⟩
  | group i p ih =>
    obtain ⟨u, hu, hk⟩ := ih h
    exact ⟨_, ⟨u, hu, rfl⟩, hk⟩
  | ahead p ih =>
    rw [run, Option.ite_none_right_eq_some] at h
    obtain ⟨r', hr'⟩ := Option.isSome_iff_exists.mp h.1
    obtain ⟨u, hu, -⟩ := ih hr'
    exact ⟨s, ⟨rfl, u, hu⟩, h.2⟩
  | notAfter accepts =>
    rw [run, Option.ite_none_left_eq_some] at h
    exact ⟨s, ⟨rfl, by simpa using h.1⟩, h.2⟩
  | wordEdge | finish =>
    rw [run, Option.ite_none_right_eq_some] at h
    exact ⟨s, ⟨rfl, h.1⟩, h.2⟩

/-- What is read is taken off the front of the text. -/
theorem reads_rest (h : p.Reads s t) : ∃ cs, s.rest = cs ++ t.rest := by
  induction p generalizing s t with
  | nothing => exact ⟨[], by rw [show t = s from h]; rfl⟩
  | one accepts => obtain ⟨c, rest, hr, -, rfl⟩ := h; exact ⟨[c], hr⟩
  | seq p q ihp ihq =>
    obtain ⟨u, hp, hq⟩ := h
    obtain ⟨cs, hcs⟩ := ihp hp
    obtain ⟨ds, hds⟩ := ihq hq
    exact ⟨cs ++ ds, by rw [hcs, hds, List.append_assoc]⟩
  | alt p q ihp ihq =>
    rcases h with h | h
    · exact ihp h
    · exact ihq h
  | many greedy accepts => obtain ⟨cs, rest, -, hr, rfl⟩ := h; exact ⟨cs, hr⟩
  | group i p ih =>
    obtain ⟨u, hu, rfl⟩ := h
    obtain ⟨cs, hcs⟩ := ih hu
    exact ⟨cs, hcs⟩
  | ahead | notAfter | wordEdge | finish => exact ⟨[], by rw [h.1]; rfl⟩

def isGroupless : Pattern → Bool
  | seq p q => p.isGroupless && q.isGroupless
  | alt p q => p.isGroupless && q.isGroupless
  | group _ _ => false
  | _ => true

theorem reads_groups (hg : p.isGroupless) (h : p.Reads s t) : t.groups = s.groups := by
  induction p generalizing s t with
  | nothing => rw [show t = s from h]
  | one accepts => obtain ⟨c, rest, -, -, rfl⟩ := h; rfl
  | seq p q ihp ihq =>
    simp only [isGroupless, Bool.and_eq_true] at hg
    obtain ⟨u, hp, hq⟩ := h
    rw [ihq hg.2 hq, ihp hg.1 hp]
  | alt p q ihp ihq =>
    simp only [isGroupless, Bool.and_eq_true] at hg
    rcases h with h | h
    · exact ihp hg.1 h
    · exact ihq hg.2 h
  | many greedy accepts => obtain ⟨cs, rest, -, -, rfl⟩ := h; rfl
  | group i p => cases hg
  | ahead | notAfter | wordEdge | finish => rw [h.1]

theorem reads_all_cons (h : (all (p :: ps)).Reads s t) : ∃ u, p.Reads s u ∧ (all ps).Reads u t := by
  cases ps with
  | nil => exact ⟨t, h, rfl⟩
  | cons q ps => exact h

/-! ## Matches -/

/-- A match begins and ends where the pattern can read from and to. -/
def Matches (p : Pattern) (before rest : List Char) (m : Match) : Prop :=
  ∃ t, p.Reads ⟨before, rest, []⟩ t ∧ m = toMatch before rest t

theorem at_reads (h : p.at? before rest = some m) : p.Matches before rest m := by
  obtain ⟨r, hr, rfl⟩ := Option.map_eq_some_iff.mp h
  obtain ⟨t, ht, hk⟩ := run_reads hr
  cases hk
  exact ⟨r, ht, rfl⟩

theorem atLeastOne_reads (h : p.atLeastOne? before rest = some m) :
    p.Matches before rest m ∧ m.after.length < rest.length := by
  obtain ⟨r, hr, rfl⟩ := Option.map_eq_some_iff.mp h
  obtain ⟨t, ht, hk⟩ := run_reads hr
  split at hk
  · rename_i hlt; cases hk; exact ⟨⟨r, ht, rfl⟩, hlt⟩
  · cases hk

theorem Matches.rest_eq (h : p.Matches before rest m) : rest = m.matched ++ m.after := by
  obtain ⟨t, ht, rfl⟩ := h
  obtain ⟨cs, hcs⟩ := reads_rest ht
  simp only at hcs
  subst hcs
  simp [toMatch, Span.text_append]

theorem findFrom_reads (h : p.findFrom? before rest = some m) :
    ∃ skipped, m.before = skipped.reverse ++ before ∧ rest = skipped ++ m.matched ++ m.after ∧
      p.Matches m.before (m.matched ++ m.after) m := by
  have here : ∀ {before rest : List Char}, p.at? before rest = some m →
      ∃ skipped, m.before = skipped.reverse ++ before ∧ rest = skipped ++ m.matched ++ m.after ∧
        p.Matches m.before (m.matched ++ m.after) m := by
    intro before rest ha
    have hm := at_reads ha
    have hr := hm.rest_eq
    have hb : m.before = before := by obtain ⟨t, -, rfl⟩ := hm; rfl
    exact ⟨[], by simpa using hb, by simpa using hr, by rw [hb, ← hr]; exact hm⟩
  induction rest generalizing before with
  | nil => exact here h
  | cons c rest ih =>
    simp only [findFrom?] at h
    split at h
    · rename_i m' ha; cases h; exact here ha
    · obtain ⟨skipped, hb, hr, hm⟩ := ih h
      exact ⟨c :: skipped, by simp [hb], by simp [hr], hm⟩

theorem find_reads {t : List Char} (h : p.find? t = some m) :
    t = m.before.reverse ++ m.matched ++ m.after ∧ p.Matches m.before (m.matched ++ m.after) m := by
  obtain ⟨skipped, hb, hr, hm⟩ := findFrom_reads h
  refine ⟨?_, hm⟩
  rw [hr, hb]
  simp

end Pattern

end MappingFlow
