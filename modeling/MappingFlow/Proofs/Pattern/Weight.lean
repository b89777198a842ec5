/-
  MappingFlow.Proofs.Pattern.Weight — replacements that keep the weight of a text.

  Give every character a weight in a commutative group; a text weighs the sum of its
  characters. A reader that adds the weights up is ahead on the new text by what it
  weighs more than the old one (`leads_weighing`), so a replacement whose pieces make up for each
  other keeps the weight of every text (`weigh_substitute`).
-/

import MappingFlow.Proofs.Pattern.Recasting
import Mathlib.Algebra.BigOperators.Group.List.Basic
import Mathlib.Tactic.Abel

namespace MappingFlow

open List

variable {M : Type} [AddCommGroup M] (w : Char → M)

def weigh (t : List Char) : M := (t.map w).sum

@[simp] theorem weigh_nil : weigh w [] = 0 := rfl

@[simp] theorem weigh_cons (c : Char) (t) : weigh w (c :: t) = w c + weigh w t := by
  simp [weigh]

@[simp] theorem weigh_append (s t) : weigh w (s ++ t) = weigh w s + weigh w t := by
  simp [weigh]

@[simp] theorem weigh_reverse (t) : weigh w t.reverse = weigh w t := by
  induction t with
  | nil => rfl
  | cons c t ih => simp [ih, add_comm]

theorem weigh_eq_zero (h : ∀ c ∈ t, w c = 0) : weigh w t = 0 := by
  induction t with
  | nil => rfl
  | cons c t ih =>
    rw [weigh_cons, h c (.head _), ih fun d hd => h d (.tail _ hd), add_zero]

/-- Adds the weights up. -/
def weighing : Reader M := ⟨fun s c => s + w c⟩

theorem read_weighing (s : M) (t) : (weighing w).read s t = s + weigh w t := by
  induction t generalizing s with
  | nil => exact (add_zero s).symm
  | cons c t ih => rw [Reader.read_cons, ih, weigh_cons, ← add_assoc]; rfl

def AheadBy (d a b : M) : Prop := a = b + d

variable {w}

theorem leads_weighing (h : d + weigh w v = weigh w u + d') : (weighing w).Leads (AheadBy d) (AheadBy d') u v := by
  rintro a b rfl
  rw [AheadBy, read_weighing, read_weighing, add_assoc, h, add_assoc]

theorem Pattern.weigh_substitute {p : Pattern}
    (hp : p.Recasts (weighing w) (AheadBy 0) (AheadBy 0) t is) (hd : is.Nodup ∧ 0 ∉ is) (source) :
    weigh w (p.substitute t source) = weigh w source := by
  have heq : AheadBy (0 : M) = Eq := by
    funext a b
    rw [AheadBy, add_zero]
  rw [heq] at hp
  have := sim_substitute Reader.respects_eq hp hd source 0 0 rfl
  rwa [read_weighing, read_weighing, zero_add, zero_add] at this

end MappingFlow
