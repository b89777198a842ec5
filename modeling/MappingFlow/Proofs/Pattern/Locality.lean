/-
  MappingFlow.Proofs.Pattern.Locality — replacements that do not see across a character.

  What a pattern can read shows in its parts: characters that none of them accepts
  (`rejects`), and how many it must accept (`minLength`).

  A pattern that reads no `d` and looks no further than one character (`isLocal`) finds
  the same matches in front of a `d` whatever stands behind it, and behind a `d` whatever
  stands in front (`run_alike`). Replacing its matches by a fixed text then works on either
  side by itself (`SplitsAt`), and on the stretches between the quotes one by one if `d` is
  the quote (`IsPiecewise`).
-/

import MappingFlow.Proofs.Pattern.Replacing
import MappingFlow.Proofs.Pattern.Simulation
import MappingFlow.Proofs.Text.Runs
import Mathlib.Data.Option.Defs

namespace MappingFlow.Pattern

open List Bool Text

/-! ## What is never read, and what is always read -/

def rejects (d : Char) : Pattern → Bool
  | one accepts => !accepts d
  | many _ accepts => !accepts d
  | seq p q => p.rejects d && q.rejects d
  | alt p q => p.rejects d && q.rejects d
  | group _ p => p.rejects d
  | _ => true

/-- No match is shorter. -/
def minLength : Pattern → Nat
  | one _ => 1
  | seq p q => p.minLength + q.minLength
  | alt p q => min p.minLength q.minLength
  | group _ p => p.minLength
  | _ => 0

variable {p : Pattern} {s s' t : Scan} {k k' : Scan → Option Scan}

theorem reads_rejects (hp : p.rejects d) (h : p.Reads s t) : ∃ x, d ∉ x ∧ s.rest = x ++ t.rest := by
  have ne_of : ∀ {accepts : Char → Bool} {c : Char}, (!accepts d) = true → accepts c = true → d ≠ c := by
    rintro accepts c hd hc rfl
    simp [hc] at hd
  induction p generalizing s t with
  | nothing => exact ⟨[], not_mem_nil, by rw [show t = s from h]; rfl⟩
  | one accepts =>
    obtain ⟨c, rest, hr, hc, rfl⟩ := h
    exact ⟨[c], by simpa using ne_of hp hc, hr⟩
  | seq p q ihp ihq =>
    simp only [rejects, and_eq_true] at hp
    obtain ⟨u, hpu, hqt⟩ := h
    obtain ⟨x, hx, hrest⟩ := ihp hp.1 hpu
    obtain ⟨y, hy, hrest'⟩ := ihq hp.2 hqt
    exact ⟨x ++ y, by simp [hx, hy], by rw [hrest, hrest', append_assoc]⟩
  | alt p q ihp ihq =>
    simp only [rejects, and_eq_true] at hp
    rcases h with h | h
    · exact ihp hp.1 h
    · exact ihq hp.2 h
  | many greedy accepts =>
    obtain ⟨cs, rest, hcs, hr, rfl⟩ := h
    exact ⟨cs, fun hd => ne_of hp (hcs d hd) rfl, hr⟩
  | group i p ih =>
    obtain ⟨u, hu, rfl⟩ := h
    obtain ⟨x, hx, hrest⟩ := ih hp hu
    exact ⟨x, hx, hrest⟩
  | ahead | notAfter | wordEdge | finish => exact ⟨[], not_mem_nil, by rw [h.1]; rfl⟩

theorem reads_minLength (h : p.Reads s t) : t.rest.length + p.minLength ≤ s.rest.length := by
  induction p generalizing s t with
  | one accepts =>
    obtain ⟨c, rest, hr, -, rfl⟩ := h
    simp [hr, minLength]
  | seq p q ihp ihq =>
    obtain ⟨u, hpu, hqt⟩ := h
    have hp := ihp hpu
    have hq := ihq hqt
    simp only [minLength]
    omega
  | alt p q ihp ihq =>
    simp only [minLength]
    rcases h with h | h
    · have := ihp h
      omega
    · have := ihq h
      omega
  | group i p ih =>
    obtain ⟨u, hu, rfl⟩ := h
    have := ih hu
    exact this
  | nothing | many | ahead | notAfter | wordEdge | finish =>
    obtain ⟨x, hx⟩ := reads_rest h
    simp [hx, minLength]

theorem minLength_all (hp : 0 < p.minLength) : 0 < (all (p :: ps)).minLength := by
  cases ps with
  | nil => exact hp
  | cons q ps => exact Nat.add_pos_left hp _

/-! ## Patterns that do not see across a character -/

def isLocal (d : Char) : Pattern → Bool
  | nothing => true
  | one accepts => !accepts d
  | seq p q => p.isLocal d && q.isLocal d
  | alt p q => p.isLocal d && q.isLocal d
  | wordEdge => !isWord d
  | _ => false

theorem isLocal_all (h : ∀ p ∈ ps, p.isLocal d) : (all ps).isLocal d = true := by
  induction ps with
  | nil => rfl
  | cons p ps ih =>
    cases ps with
    | nil => exact h p (.head _)
    | cons q ps =>
      rw [all, isLocal, and_eq_true]
      exact ⟨h p (.head _), ih fun r hr => h r (.tail _ hr)⟩

theorem rejects_of_isLocal (hp : p.isLocal d) : p.rejects d = true := by
  induction p with
  | nothing | wordEdge => rfl
  | one accepts => exact hp
  | seq p q ihp ihq | alt p q ihp ihq =>
    simp only [isLocal, rejects, and_eq_true] at hp ⊢
    exact ⟨ihp hp.1, ihq hp.2⟩
  | many | group | ahead | notAfter | finish => cases hp

/-- The text up to the next `d`. -/
def fore (d : Char) (t : List Char) : List Char := t.takeWhile (· != d)

theorem fore_append (hx : d ∉ x) (t) : fore d (x ++ t) = x ++ fore d t :=
  takeWhile_append_of_pos fun c hc => by simpa using fun h : c = d => hx (h ▸ hc)

theorem fore_cons (hc : c ≠ d) (t) : fore d (c :: t) = c :: fore d t :=
  fore_append (x := [c]) (by simpa using Ne.symm hc) t

theorem fore_self (t) : fore d (d :: t) = [] := by simp [fore]

theorem fore_sep (x t) : fore d (x ++ d :: t) = fore d x := by
  induction x with
  | nil => exact fore_self t
  | cons c x ih =>
    by_cases hc : c = d
    · rw [hc, cons_append, fore_self, fore_self]
    · rw [cons_append, fore_cons hc, fore_cons hc, ih]

theorem head_of_fore {t x : List Char} (h : fore d t = c :: x) : ∃ u, t = c :: u ∧ fore d u = x := by
  cases t with
  | nil => cases h
  | cons e t =>
    by_cases he : e = d
    · rw [he, fore_self] at h; cases h
    · rw [fore_cons he, cons.injEq] at h
      exact ⟨t, by rw [h.1], h.2⟩

theorem head_of_blocked {t : List Char} (h : fore d t = []) (ha : accepts d = false) : t.head?.any accepts = false := by
  cases t with
  | nil => rfl
  | cons c t =>
    by_cases hc : c = d
    · subst hc; exact ha
    · rw [fore_cons hc] at h; cases h

/-- Two places with the same text up to the next `d`. -/
structure Alike (d : Char) (s s' : Scan) : Prop where
  word : s.before.head?.any isWord = s'.before.head?.any isWord
  fore : fore d s.rest = fore d s'.rest

theorem Alike.wordEdge (hd : isWord d = false) (h : Alike d s s') : atWordEdge s = atWordEdge s' := by
  have hfore := h.fore
  have hrest : s.rest.head?.any isWord = s'.rest.head?.any isWord := by
    cases hs : Pattern.fore d s.rest with
    | nil => rw [head_of_blocked hs hd, head_of_blocked (hfore ▸ hs) hd]
    | cons c x =>
      obtain ⟨u, hu, -⟩ := head_of_fore hs
      obtain ⟨u', hu', -⟩ := head_of_fore (hfore ▸ hs)
      rw [hu, hu']
      rfl
  rw [atWordEdge, atWordEdge, h.word, hrest]

theorem run_alike (hp : p.isLocal d) (h : Alike d s s')
    (hk : ∀ t t', Alike d t t' → Option.Rel (Alike d) (k t) (k' t')) : Option.Rel (Alike d) (p.run s k) (p.run s' k') := by
  induction p generalizing s s' k k' with
  | nothing => exact hk s s' h
  | one accepts =>
    have haccepts : accepts d = false := by simpa [isLocal] using hp
    have none_of : ∀ {s : Scan} {k : Scan → Option Scan}, fore d s.rest = [] → (one accepts).run s k = none := by
      intro s k hs
      have := head_of_blocked hs haccepts
      cases hr : s.rest <;> simp_all [run]
    cases hs : fore d s.rest with
    | nil =>
      rw [none_of hs, none_of (h.fore ▸ hs)]
      exact .none
    | cons c x =>
      obtain ⟨u, hu, hx⟩ := head_of_fore hs
      obtain ⟨u', hu', hx'⟩ := head_of_fore (h.fore ▸ hs)
      simp only [run, hu, hu']
      cases accepts c with
      | true => exact hk _ _ ⟨rfl, hx.trans hx'.symm⟩
      | false => exact .none
  | seq p q ihp ihq =>
    simp only [isLocal, and_eq_true] at hp
    exact ihp hp.1 h fun t t' ht => ihq hp.2 ht hk
  | alt p q ihp ihq =>
    simp only [isLocal, and_eq_true] at hp
    have first := ihp hp.1 h hk
    simp only [run]
    generalize p.run s k = o, p.run s' k' = o' at first ⊢
    cases first with
    | some hr => exact .some hr
    | none => exact ihq hp.2 h hk
  | wordEdge =>
    have hd : isWord d = false := by simpa [isLocal] using hp
    simp only [run, h.wordEdge hd]
    split
    · exact hk s s' h
    · exact .none
  | many | group | ahead | notAfter | finish => cases hp

/-- What is matched does not depend on what stands across a `d`. -/
theorem at_alike {before before' rest rest' : List Char} (hp : p.isLocal d)
    (h : Alike d ⟨before, rest, []⟩ ⟨before', rest', []⟩) :
    (p.at? before rest).map (·.matched) = (p.at? before' rest').map (·.matched) := by
  have hrun := @run_alike p _ _ some some d hp h fun t t' ht => .some ht
  have matched_fore : ∀ {before rest : List Char} {r : Scan}, p.run ⟨before, rest, []⟩ some = some r →
      fore d rest = (toMatch before rest r).matched ++ fore d r.rest := by
    intro before rest r hr
    obtain ⟨t, ht, hk⟩ := run_reads hr
    cases hk
    obtain ⟨x, hx, hrest⟩ := reads_rejects (rejects_of_isLocal hp) ht
    simp only at hrest
    subst hrest
    rw [fore_append hx, toMatch, Span.text_append]
  rw [at?, at?]
  generalize hr : p.run ⟨before, rest, []⟩ some = o, hr' : p.run ⟨before', rest', []⟩ some = o' at hrun ⊢
  cases hrun with
  | none => rfl
  | some hend =>
    have hfore := (matched_fore hr).symm.trans (h.fore.trans (matched_fore hr'))
    rw [hend.fore] at hfore
    simpa using append_cancel_right hfore

/-! ## Replacing piece by piece -/

variable {write : Match → List Char} {before before' rest : List Char}

theorem Matches.minLength_le (h : p.Matches before rest m) : p.minLength ≤ m.matched.length := by
  have hrest := congrArg length h.rest_eq
  obtain ⟨t, ht, rfl⟩ := h
  have := reads_minLength ht
  simp only [length_append, toMatch] at hrest this ⊢
  omega

theorem Matches.not_mem (h : p.Matches before rest m) (hp : p.rejects d) : d ∉ m.matched := by
  have hmatched := h.rest_eq
  obtain ⟨t, ht, rfl⟩ := h
  obtain ⟨x, hx, hrest⟩ := reads_rejects hp ht
  rwa [append_cancel_right (hmatched.symm.trans hrest)]

theorem at_ne_nil (hp : 0 < p.minLength) (h : p.at? before rest = some m) : m.matched ≠ [] := by
  have := (at_reads h).minLength_le
  exact ne_nil_of_length_pos (by omega)

/-- A replacement that works on either side of a `d` by itself. -/
def SplitsAt (d : Char) (f : List Char → List Char) : Prop := ∀ x t, f (x ++ d :: t) = f x ++ d :: f t

theorem SplitsAt.comp (hg : SplitsAt d g) (hf : SplitsAt d f) : SplitsAt d fun t => g (f t) :=
  fun x t => (congrArg g (hf x t)).trans (hg _ _)

theorem SplitsAt.foldl {α : Type} {f : List Char → α → List Char} {as : List α} (hf : ∀ a ∈ as, SplitsAt d (f · a)) :
    SplitsAt d fun t => as.foldl f t := by
  induction as with
  | nil => exact fun _ _ => rfl
  | cons a as ih => exact (ih fun b hb => hf b (.tail _ hb)).comp (hf a (.head _))

/-- A replacement that works on either side of every sign works on each run by itself. -/
theorem eq_mapRuns (hf : ∀ d, accepts d = false → SplitsAt d f) (hnil : f [] = []) (t) : f t = mapRuns accepts f t := by
  have sign : ∀ d, accepts d = false → ∀ t, f (d :: t) = d :: f t := fun d hd t => by
    rw [← nil_append (d :: t), hf d hd, hnil, nil_append]
  induction t using runs_induction accepts with
  | nil => exact hnil
  | sign d t hd ih => rw [sign d hd, ih, mapRuns_sign hd, sign d hd, hnil, singleton_append]
  | run w t hw ht ih =>
    rw [mapRuns_run hw ht, ← ih]
    cases t with
    | nil => rw [hnil, append_nil, append_nil]
    | cons d t => rw [hf d ht, sign d ht]

/-- A replacement that works on the stretches between the quotes one by one. -/
structure IsPiecewise (f : List Char → List Char) : Prop where
  split : SplitsAt '\'' f
  single : ∀ x, '\'' ∉ x → '\'' ∉ f x
  double : ∀ x, '"' ∉ x → '"' ∉ f x

theorem IsPiecewise.comp (hg : IsPiecewise g) (hf : IsPiecewise f) : IsPiecewise fun t => g (f t) where
  split := hg.split.comp hf.split
  single x hx := hg.single _ (hf.single x hx)
  double x hx := hg.double _ (hf.double x hx)

theorem at_nil (hc : 0 < p.minLength) (before) : p.at? before [] = none := by
  cases h : p.at? before [] with
  | none => rfl
  | some m => exact absurd (append_eq_nil_iff.mp (at_reads h).rest_eq.symm).1 (at_ne_nil hc h)

/-- The text is gone through character by character, and match by match where there is one. -/
theorem replaceFrom_induction {motive : List Char → List Char → List Char → Prop} (hp : 0 < p.minLength)
    (nil : ∀ before, motive before [] []) (copy : ∀ before c rest out, p.at? before (c :: rest) = none →
      motive (c :: before) rest out → motive before (c :: rest) (c :: out))
    (found : ∀ before m out, p.at? before (m.matched ++ m.after) = some m →
      motive (m.matched.reverse ++ before) m.after out → motive before (m.matched ++ m.after) (write m ++ out))
    (rest before) : motive before rest (p.replaceFrom write before 0 rest) := by
  induction h : rest.length using Nat.strongRecOn generalizing rest before with
  | _ n ih =>
    subst h
    cases hat : p.at? before rest with
    | none =>
      cases rest with
      | nil => simpa [replaceFrom, at_nil hp] using nil before
      | cons c rest => simpa only [replaceFrom, hat] using copy before c rest _ hat (ih _ (by simp) rest _ rfl)
    | some m =>
      have hsplit := (at_reads hat).rest_eq
      have hne := at_ne_nil hp hat
      rw [hsplit] at hat ⊢
      rw [replaceFrom_match hat rfl hne]
      refine found before m _ hat (ih _ ?_ m.after _ rfl)
      have := length_pos_of_ne_nil hne
      rw [hsplit, length_append]
      omega

/-- What holds of the text before a place, the text behind it and the state on the new text holds at the end, if
    it holds on over every character that is copied and over every match. -/
theorem walk_replaceFrom {σ : Type} {r : Reader σ} {I : List Char → List Char → σ → Prop} (hp : 0 < p.minLength)
    (hcopy : ∀ before c rest a, I before (c :: rest) a → p.at? before (c :: rest) = none →
      I (c :: before) rest (r.step a c)) (hmatch : ∀ before rest m a, I before rest a → p.at? before rest = some m →
      I (m.matched.reverse ++ before) m.after (r.read a (write m))) (rest) : ∀ before a, I before rest a →
      I (rest.reverse ++ before) [] (r.read a (p.replaceFrom write before 0 rest)) := by
  intro before
  refine replaceFrom_induction (motive := fun before rest out => ∀ a, I before rest a →
    I (rest.reverse ++ before) [] (r.read a out)) hp (fun _ _ hI => hI) (fun before c rest out hat ih a hI => ?_)
    (fun before m out hat ih a hI => ?_) rest before
  · simpa using ih _ (hcopy before c rest a hI hat)
  · simpa using ih _ (hmatch before _ m a hI hat)

section Fixed

variable (hp : p.isLocal d = true) (hc : 0 < p.minLength)

include hc

theorem replaceFrom_cons (c : Char) : p.replaceFrom (fun _ => v) before 0 (c :: rest) =
    ((p.at? before (c :: rest)).map (·.matched)).elim (c :: p.replaceFrom (fun _ => v) (c :: before) 0 rest) fun x =>
      v ++ p.replaceFrom (fun _ => v) (c :: before) (x.length - 1) rest := by
  cases h : p.at? before (c :: rest) with
  | none => simp only [replaceFrom, h, Option.map_none, Option.elim_none]
  | some m =>
    obtain ⟨d, x, hx⟩ := exists_cons_of_ne_nil (at_ne_nil hc h)
    simp only [replaceFrom, h, hx, Option.map_some, Option.elim_some, length_cons, Nat.add_sub_cancel]

include hp

theorem replaceFrom_before (h : before.head?.any isWord = before'.head?.any isWord) (skip : Nat) :
    p.replaceFrom (fun _ => v) before skip rest = p.replaceFrom (fun _ => v) before' skip rest := by
  induction rest generalizing before before' skip with
  | nil => simp only [replaceFrom, at_nil hc]
  | cons c rest ih =>
    have later : ∀ skip, p.replaceFrom (fun _ => v) (c :: before) skip rest =
        p.replaceFrom (fun _ => v) (c :: before') skip rest := @ih (c :: before) (c :: before') rfl
    cases skip with
    | succ n => simpa only [replaceFrom] using later n
    | zero =>
      rw [replaceFrom_cons hc, replaceFrom_cons hc, at_alike hp ⟨h, rfl⟩]
      simp only [later]

theorem replaceFrom_sep (hd : isWord d = false) {x t : List Char} (skip : Nat) (hskip : skip ≤ x.length) :
    p.replaceFrom (fun _ => v) before skip (x ++ d :: t) =
      p.replaceFrom (fun _ => v) before skip x ++ d :: p.replaceFrom (fun _ => v) [] 0 t := by
  induction x generalizing before skip with
  | nil =>
    have hat := @at_alike p d before before (d :: t) [] hp ⟨rfl, fore_self t⟩
    have hedge : (d :: before).head?.any isWord = ([] : List Char).head?.any isWord := by simpa using hd
    rw [Nat.le_zero.mp hskip, nil_append, replaceFrom_cons hc, hat, at_nil hc,
      replaceFrom_before hp hc hedge]
    simp only [replaceFrom, at_nil hc, Option.map_none, Option.elim_none, Option.getD_none, nil_append]
  | cons c x ih =>
    cases skip with
    | succ n => simpa only [cons_append, replaceFrom] using ih n (by simpa using hskip)
    | zero =>
      have hat := @at_alike p d before before (c :: x ++ d :: t) (c :: x) hp ⟨rfl, fore_sep (c :: x) t⟩
      rw [cons_append] at hat ⊢
      rw [replaceFrom_cons hc, replaceFrom_cons hc, hat]
      cases h : p.at? before (c :: x) with
      | none => simp only [Option.map_none, Option.elim_none, ih 0 (Nat.zero_le _), cons_append]
      | some m =>
        have hle : m.matched.length - 1 ≤ x.length := by
          have := congrArg length (at_reads h).rest_eq
          simp only [length_cons, length_append] at this
          omega
        simp only [Option.map_some, Option.elim_some, ih _ hle, append_assoc]

theorem splitsAt_replaceAll (hd : isWord d = false) : SplitsAt d (p.replaceAll fun _ => v) := fun _ _ =>
  replaceFrom_sep hp hc hd 0 (Nat.zero_le _)

end Fixed

theorem splitsAt_substitute (hp : p.isLocal d) (hc : 0 < p.minLength)
    (hd : isWord d = false) : SplitsAt d (p.substitute (Template.plain v)) := by
  rw [show p.substitute (Template.plain v) = _ from funext (substitute_plain p v)]
  exact splitsAt_replaceAll hp hc hd

theorem isPiecewise_replaceAll (hp : p.isLocal '\'') (hc : 0 < p.minLength)
    (hv : '\'' ∉ v ∧ '"' ∉ v) : IsPiecewise (p.replaceAll fun _ => v) where
  split := splitsAt_replaceAll hp hc (by decide)
  single _ := not_mem_replaceAll fun _ => hv.1
  double _ := not_mem_replaceAll fun _ => hv.2

end MappingFlow.Pattern
