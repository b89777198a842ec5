/-
  MappingFlow.Proofs.Pattern.Simulation — what a reader makes of a text and of its rewriting.

  A reader goes through a text from left to right and keeps a state. A relation between the
  states on the new and on the old text that survives every character they have in common
  need only be checked for what is written in place of each match (`sim_replaceAll`).
-/

import MappingFlow.Proofs.Pattern.Reads

namespace MappingFlow

variable {σ : Type}

structure Reader (σ : Type) where
  step : σ → Char → σ

namespace Reader

variable (r : Reader σ)

def read (s : σ) (t : List Char) : σ := t.foldl r.step s

@[simp] theorem read_nil (s : σ) : r.read s [] = s := rfl

@[simp] theorem read_cons (s : σ) (c : Char) (t) : r.read s (c :: t) = r.read (r.step s c) t := rfl

@[simp] theorem read_append (s : σ) (x y) : r.read s (x ++ y) = r.read (r.read s x) y :=
  List.foldl_append

/-- An order on the states that reading on respects. -/
structure Respects (R : σ → σ → Prop) : Prop where
  refl : ∀ a, R a a
  trans : ∀ {a b c}, R a b → R b c → R a c
  step : ∀ {a b} c, R a b → R (r.step a c) (r.step b c)

/-- The two texts lead from states in one relation to states in another. -/
def Leads (R R' : σ → σ → Prop) (old new : List Char) : Prop := ∀ a b, R a b → R' (r.read a new) (r.read b old)

/-- The new text may stand for the old one, wherever it is read. -/
def Sim (R : σ → σ → Prop) (old new : List Char) : Prop := ∀ a b, R a b → R (r.read a new) (r.read b old)

variable {r} {R R₁ R₂ : σ → σ → Prop}

theorem Leads.append (hx : r.Leads R R₁ x x') (hy : r.Leads R₁ R₂ y y') : r.Leads R R₂ (x ++ y) (x' ++ y') := by
  intro a b hab
  rw [read_append, read_append]
  exact hy _ _ (hx a b hab)

theorem Respects.read (h : r.Respects R) (hab : R a b) (t) : R (r.read a t) (r.read b t) := by
  induction t generalizing a b with
  | nil => exact hab
  | cons c t ih => exact ih (h.step c hab)

theorem Sim.rfl (h : r.Respects R) (t) : r.Sim R t t := fun _ _ hab => h.read hab t

theorem Sim.append (hx : r.Sim R x x') (hy : r.Sim R y y') : r.Sim R (x ++ y) (x' ++ y') := Leads.append hx hy

theorem Sim.trans (h : r.Respects R) (hxy : r.Sim R x y) (hyx' : r.Sim R y x') : r.Sim R x x' := fun a b hab =>
  h.trans (hyx' a a (h.refl a)) (hxy a b hab)

/-- It is enough to compare the two readings from one state. -/
theorem Sim.of_read (h : r.Respects R) (hs : ∀ s, R (r.read s y) (r.read s x)) : r.Sim R x y := fun a _ hab =>
  h.trans (hs a) (h.read hab x)

theorem respects_eq : r.Respects Eq := ⟨fun _ => rfl, Eq.trans, fun c h => congrArg (r.step · c) h⟩

theorem Sim.foldl {α : Type} (h : r.Respects R) {f : List Char → α → List Char} {as : List α}
    (hf : ∀ a ∈ as, ∀ t, r.Sim R t (f t a)) (t) : r.Sim R t (as.foldl f t) := by
  induction as generalizing t with
  | nil => exact Sim.rfl h t
  | cons a as ih =>
    exact (hf a (.head _) t).trans h (ih (fun b hb => hf b (.tail _ hb)) (f t a))

/-! ## Two readers at once -/

variable {τ : Type} {R' : τ → τ → Prop}

def prod (r : Reader σ) (r' : Reader τ) : Reader (σ × τ) := ⟨fun s c => (r.step s.1 c, r'.step s.2 c)⟩

theorem read_prod (s : σ × τ) (t) : (r.prod r').read s t = (r.read s.1 t, r'.read s.2 t) := by
  induction t generalizing s with
  | nil => rfl
  | cons c t ih => exact ih _

def Both (R : σ → σ → Prop) (R' : τ → τ → Prop) (a b : σ × τ) : Prop := R a.1 b.1 ∧ R' a.2 b.2

theorem Respects.prod (h : r.Respects R) (h' : r'.Respects R') : (r.prod r').Respects (Both R R') :=
  ⟨fun a => ⟨h.refl a.1, h'.refl a.2⟩, fun hab hbc => ⟨h.trans hab.1 hbc.1, h'.trans hab.2 hbc.2⟩,
    fun c hab => ⟨h.step c hab.1, h'.step c hab.2⟩⟩

theorem Sim.prod (h : r.Sim R x y) (h' : r'.Sim R' x y) : (r.prod r').Sim (Both R R') x y := by
  intro a b hab
  rw [read_prod, read_prod]
  exact ⟨h _ _ hab.1, h' _ _ hab.2⟩

theorem Sim.read_both (h : (r.prod r').Sim (Both R R') x y) (hab : R a b) (hab' : R' a' b') :
    R (r.read a y) (r.read b x) ∧ R' (r'.read a' y) (r'.read b' x) := by
  have := h (a, a') (b, b') ⟨hab, hab'⟩
  rwa [read_prod, read_prod] at this

end Reader

namespace Pattern

open Reader
open List

variable {r : Reader σ} {R : σ → σ → Prop} {p : Pattern} {write : Match → List Char}

theorem sim_replaceFrom (h : r.Respects R) (hw : ∀ before rest m, p.Matches before rest m → r.Sim R m.matched (write m))
    (rest before skip) : r.Sim R (rest.drop skip) (p.replaceFrom write before skip rest) := by
  -- A match is written, and the walk goes on behind it.
  have written : ∀ {before c rest m k out}, p.Matches before (c :: rest) m → m.matched.length = k + 1 →
      r.Sim R (rest.drop k) out → r.Sim R (c :: rest) (write m ++ out) := by
    intro before c rest m k out hm hl hlater
    rw [show rest.drop k = (c :: rest).drop (k + 1) from rfl, hm.rest_eq, drop_left' hl] at hlater
    exact hm.rest_eq ▸ (hw _ _ _ hm).append hlater
  fun_induction replaceFrom p write before skip rest with
  | case1 before skip =>
    cases ha : p.at? before [] with
    | none => simpa using Sim.rfl h []
    | some m => simpa [(append_eq_nil_iff.mp (at_reads ha).rest_eq.symm).1] using hw _ _ _ (at_reads ha)
  | case2 before c rest n ih => exact ih
  | case3 before c rest ha ih => exact (Sim.rfl h [c]).append ih
  | case4 before c rest m ha k hl ih => exact written (at_reads ha) hl ih
  | case5 before c rest m ha hl ihlonger ih =>
    refine (length_eq_zero_iff.mp hl ▸ hw _ _ _ (at_reads ha) : r.Sim R [] _).append ?_
    cases hb : p.atLeastOne? before (c :: rest) with
    | none => exact (Sim.rfl h [c]).append ih
    | some longer =>
      obtain ⟨hm, hlt⟩ := atLeastOne_reads hb
      have hlength := congrArg List.length hm.rest_eq
      rw [length_append] at hlength
      exact written hm (by omega) (ihlonger longer)

theorem sim_replaceAll (h : r.Respects R) (hw : ∀ before rest m, p.Matches before rest m → r.Sim R m.matched (write m))
    (t) : r.Sim R t (p.replaceAll write t) :=
  sim_replaceFrom h hw t [] 0

/-! ## Characters of the new text -/

/-- Tells whether a character has come up. -/
def seen (c : Char) : Reader Prop := ⟨fun s d => s ∨ c = d⟩

theorem read_seen (c : Char) (s : Prop) (t) : (seen c).read s t ↔ s ∨ c ∈ t := by
  induction t generalizing s with
  | nil => simp
  | cons d t ih => rw [read_cons, ih, seen, mem_cons, or_assoc]

/-- Nothing is in the new text but what was in the old one or is written. -/
theorem not_mem_replaceAll (hw : ∀ m, c ∉ write m) (ht : c ∉ t) : c ∉ p.replaceAll write t := by
  have hresp : (seen c).Respects (· → ·) := ⟨fun _ => id, fun hab hbc => hbc ∘ hab, fun _ => Or.imp_left⟩
  have hsim : (seen c).Sim (· → ·) t (p.replaceAll write t) := by
    refine sim_replaceAll hresp (fun _ _ m _ a b hab => ?_) t
    rw [read_seen, read_seen]
    exact fun h => .inl (hab (h.resolve_right (hw m)))
  have := hsim False False id
  rw [read_seen, read_seen] at this
  exact fun h => ht ((this (.inr h)).resolve_left id)

/-- Counts the characters. -/
def counting : Reader Nat := ⟨fun n _ => n + 1⟩

theorem read_counting (n : Nat) (t) : counting.read n t = n + t.length := by
  induction t generalizing n with
  | nil => rfl
  | cons c t ih =>
    rw [read_cons, ih, length_cons, show counting.step n c = n + 1 from rfl]
    omega

theorem length_replaceFrom_le (hw : ∀ before rest m, p.Matches before rest m → (write m).length ≤ m.matched.length)
    (before rest) : (p.replaceFrom write before 0 rest).length ≤ rest.length := by
  have hresp : counting.Respects (· ≤ ·) := ⟨Nat.le_refl, Nat.le_trans, fun _ => Nat.succ_le_succ⟩
  have hsim : counting.Sim (· ≤ ·) rest (p.replaceFrom write before 0 rest) := by
    refine sim_replaceFrom hresp (fun before rest m hm a b hab => ?_) rest before 0
    rw [read_counting, read_counting]
    exact Nat.add_le_add hab (hw before rest m hm)
  simpa [read_counting] using hsim 0 0 (Nat.le_refl 0)

/-- A text does not vanish if something is written for each match. -/
theorem replaceAll_ne_nil (hw : ∀ m, write m ≠ []) (ht : t ≠ []) : p.replaceAll write t ≠ [] := by
  have hresp : counting.Respects fun a b => 0 < b → 0 < a :=
    ⟨fun _ => id, fun hab hbc hc => hab (hbc hc), fun _ _ _ => Nat.succ_pos _⟩
  have hsim : counting.Sim (fun a b => 0 < b → 0 < a) t (p.replaceAll write t) := by
    refine sim_replaceAll hresp (fun _ _ m _ a b _ _ => ?_) t
    rw [read_counting]
    exact Nat.add_pos_right a (length_pos_iff.mpr (hw m))
  have hlength := hsim 0 0 id
  rw [read_counting, read_counting, Nat.zero_add, Nat.zero_add] at hlength
  exact length_pos_iff.mp (hlength (length_pos_iff.mpr ht))

end Pattern

end MappingFlow
