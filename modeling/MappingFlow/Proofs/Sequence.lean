/-
  MappingFlow.Proofs.Sequence — lists taken member by member.

  `EachAfter P as` says of every member that it has `P`, given the members before it. A
  program that goes through a list gives each member its answer, or stops with the failure
  of one of them (`mapM_eq_ok_iff`, `exists_of_mapM_eq_error`).
-/

import Mathlib.Data.List.Forall2

namespace MappingFlow

open List

variable {α : Type} {P : List α → α → Prop}

/-- Every member has the property, given the members before it. -/
def EachAfter (P : List α → α → Prop) (as : List α) : Prop :=
  ∀ before a after, as = before ++ a :: after → P before a

theorem EachAfter.nil : EachAfter P [] := fun before _ _ hsplit =>
  absurd hsplit.symm (append_ne_nil_of_right_ne_nil before (cons_ne_nil _ _))

theorem EachAfter.cons_iff : EachAfter P (a :: as) ↔ P [] a ∧ EachAfter (fun before => P (a :: before)) as := by
  constructor
  · intro h
    exact ⟨h [] a as rfl, fun before b after hsplit => h (a :: before) b after (by rw [hsplit, cons_append])⟩
  · rintro ⟨ha, h⟩ before b after hsplit
    cases before with
    | nil =>
      obtain ⟨rfl, -⟩ := List.cons.inj hsplit
      exact ha
    | cons c before =>
      obtain ⟨rfl, htail⟩ := List.cons.inj hsplit
      exact h before b after htail

theorem EachAfter.append_iff :
    EachAfter P (xs ++ ys) ↔ EachAfter P xs ∧ EachAfter (fun before => P (xs ++ before)) ys := by
  induction xs generalizing P with
  | nil => exact ⟨fun h => ⟨.nil, h⟩, And.right⟩
  | cons x xs ih => rw [cons_append, cons_iff, cons_iff, ih, and_assoc]; rfl

theorem eachAfter_congr {Q : List α → α → Prop} (h : ∀ before, ∀ a ∈ as, P before a ↔ Q before a) :
    EachAfter P as ↔ EachAfter Q as := by
  have hmem : ∀ {before a after}, as = before ++ a :: after → a ∈ as := fun hsplit =>
    hsplit ▸ mem_append_right _ (.head _)
  exact ⟨fun hp before a after hsplit => (h before a (hmem hsplit)).mp (hp before a after hsplit),
    fun hq before a after hsplit => (h before a (hmem hsplit)).mpr (hq before a after hsplit)⟩

instance EachAfter.decidable : ∀ (P : List α → α → Prop) [∀ before a, Decidable (P before a)] (as : List α),
    Decidable (EachAfter P as)
  | _, _, [] => isTrue .nil
  | P, _, a :: as =>
    have := EachAfter.decidable (fun before => P (a :: before)) as
    decidable_of_iff' _ EachAfter.cons_iff

theorem EachAfter.forall_mem {Q : α → Prop} (h : EachAfter P as) (hq : ∀ {before a}, P before a → Q a) :
    ∀ a ∈ as, Q a := by
  intro a ha
  obtain ⟨before, after, hsplit⟩ := append_of_mem ha
  exact hq (h before a after hsplit)

theorem mem_of_lookup {κ : Type} [BEq κ] [LawfulBEq κ] {rows : List (κ × α)} {k : κ}
    (h : rows.lookup k = some a) : (k, a) ∈ rows := by
  obtain ⟨before, after, rfl, -⟩ := lookup_eq_some_iff.mp h
  exact mem_append_right before mem_cons_self

/-! ## Answers for each member -/

section

variable {ε β γ : Type} {f : α → Except ε β} {R : α → β → Prop} {xs : List α}

theorem exists_of_mem_left (h : Forall₂ R xs ys) (hx : x ∈ xs) : ∃ y ∈ ys, R x y := by
  induction h with
  | nil => cases hx
  | cons hxy _ ih =>
    rcases mem_cons.mp hx with rfl | hx
    · exact ⟨_, mem_cons_self, hxy⟩
    · obtain ⟨y, hy, hr⟩ := ih hx
      exact ⟨y, mem_cons_of_mem _ hy, hr⟩

theorem exists_of_mem_right (h : Forall₂ R xs ys) (hy : y ∈ ys) : ∃ x ∈ xs, R x y :=
  exists_of_mem_left h.flip hy

theorem filterMap_eq_of_forall₂ (h : Forall₂ R xs ys)
    (heq : ∀ x y, R x y → k x = l y) : xs.filterMap k = ys.filterMap l := by
  induction h with
  | nil => rfl
  | cons hxy _ ih => rw [filterMap_cons, filterMap_cons, heq _ _ hxy, ih]

theorem map_eq_of_forall₂ (h : Forall₂ R xs ys) (heq : ∀ x y, R x y → k x = l y) : xs.map k = ys.map l := by
  rw [← filterMap_eq_map, ← filterMap_eq_map]
  exact filterMap_eq_of_forall₂ h fun x y hxy => congrArg some (heq x y hxy)

theorem forall₂_trans {S : β → γ → Prop} {T : α → γ → Prop} (hall : ∀ x y z, R x y → S y z → T x z)
    (h : Forall₂ R xs ys) (h' : Forall₂ S ys zs) : Forall₂ T xs zs := by
  induction h generalizing zs with
  | nil => cases h'; exact .nil
  | cons hxy _ ih =>
    cases h' with
    | cons hyz h' => exact .cons (hall _ _ _ hxy hyz) (ih h')

/-- A relation that only depends on the first member. -/
theorem forall₂_iff_forall {S : α → β → Prop} {P : α → Prop} (h : Forall₂ R xs ys)
    (hiff : ∀ x y, R x y → (S x y ↔ P x)) : Forall₂ S xs ys ↔ ∀ x ∈ xs, P x := by
  induction h with
  | nil => simp
  | cons hxy _ ih => rw [forall₂_cons, forall_mem_cons, hiff _ _ hxy, ih]

theorem mapM_eq_ok_iff : xs.mapM f = .ok ys ↔ Forall₂ (fun x y => f x = .ok y) xs ys := by
  induction xs generalizing ys with
  | nil =>
    rw [mapM_nil, forall₂_nil_left_iff]
    exact ⟨fun h => (Except.ok.inj h).symm, fun h => congrArg Except.ok h.symm⟩
  | cons x xs ih =>
    rw [mapM_cons, forall₂_cons_left_iff]
    simp only [← ih]
    cases f x with
    | error e => exact iff_of_false nofun (by rintro ⟨y, zs, hy, -⟩; cases hy)
    | ok y =>
      cases xs.mapM f with
      | error e => exact iff_of_false nofun (by rintro ⟨z, zs, -, hzs, -⟩; cases hzs)
      | ok zs =>
        constructor
        · intro h
          exact ⟨y, zs, rfl, rfl, (Except.ok.inj h).symm⟩
        · rintro ⟨_, _, hy, hzs, rfl⟩
          cases hy
          cases hzs
          rfl

theorem exists_mapM {Q : β → Prop} (h : ∀ x ∈ xs, ∃ y, f x = .ok y ∧ Q y) :
    ∃ ys, xs.mapM f = .ok ys ∧ ys.length = xs.length ∧ ∀ y ∈ ys, Q y := by
  induction xs with
  | nil => exact ⟨[], rfl, rfl, forall_mem_nil _⟩
  | cons x xs ih =>
    obtain ⟨hx, hxs⟩ := forall_mem_cons.mp h
    obtain ⟨y, hy, hq⟩ := hx
    obtain ⟨ys, hys, hlength, hall⟩ := ih hxs
    refine ⟨y :: ys, mapM_eq_ok_iff.mpr (.cons hy (mapM_eq_ok_iff.mp hys)), ?_, forall_mem_cons.mpr ⟨hq, hall⟩⟩
    rw [length_cons, length_cons, hlength]

end

end MappingFlow
