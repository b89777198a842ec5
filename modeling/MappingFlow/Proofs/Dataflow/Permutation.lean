/-
  MappingFlow.Proofs.Dataflow.Permutation — sorting neither loses nor repeats a step,
  whatever the names are.

  A name may be any value that a set can hold. It need not be a text, and it need not even
  be the same as itself: what is not a number is the same as nothing. A step of such a name
  never leaves those that wait, so no order is found and all steps stay as they are
  (`same_self_of_arrangeFrom`). With other names that are distinct, what is written next is
  the one step that stops waiting (`perm_others`), so an order that is found lists each step
  once (`sortSteps_perm`).
-/

import MappingFlow.Dataflow.Order
import MappingFlow.Proofs.Running
import MappingFlow.Proofs.Sequence

namespace MappingFlow

open List

/-! ## Being the same -/

theorem Binary64.same_comm (x y : Binary64) : x.same y = y.same x := by
  cases x <;> cases y <;> simp [Binary64.same, BEq.comm, Bool.and_comm]

namespace Value

@[simp] theorem text_same (s t) : (text s).same (text t) = (s == t) := by simp [same]

theorem same_text {v : Value} : v.same (.text s) ↔ v = .text s := by
  cases v <;> simp [same, sameNumber]

theorem sameNumber_comm (v w : Value) : sameNumber v w = sameNumber w v := by
  cases v <;> cases w <;> simp only [sameNumber, Binary64.same_comm] <;> exact BEq.comm

theorem same_comm {v w : Value} (hv : v.requireHashable = .ok ()) : v.same w = w.same v := by
  cases v with
  | list | object => cases hv
  | null => cases w <;> simp [same, sameNumber]
  | text s => cases w <;> simp [same, sameNumber, BEq.comm]
  | bool _ | int _ | real _ =>
    cases w with
    | bool _ | int _ | real _ =>
      rw [same, same]
      exact sameNumber_comm _ _
    | _ => simp [same, sameNumber]

/-- Nothing is the same as what is not the same as itself. -/
theorem same_self {v w : Value} (hkey : w.requireHashable = .ok ()) (h : v.same w) : w.same w = true := by
  cases w with
  | null => rfl
  | bool | int => simp [same, sameNumber]
  | text s => simp
  | real x =>
    cases x with
    | nan =>
      cases v with
      | real y => cases y <;> simp [same, sameNumber, Binary64.same] at h
      | _ => simp [same, sameNumber, Binary64.toInt?] at h
    | _ => simp [same, sameNumber, Binary64.same]
  | _ => cases hkey

end Value

namespace Dataflow.Order

variable {α : Type} {ns waiting os : List (Node α)} {all written : List Value}

/-- The names can be entered in a set. -/
def KeyNamed (ns : List (Node α)) : Prop := ∀ n ∈ ns, n.name.requireHashable = .ok ()

theorem KeyNamed.of_subset (h : KeyNamed ns) (hsub : ∀ n ∈ ms, n ∈ ns) : KeyNamed ms :=
  fun n hn => h n (hsub n hn)

/-- No name is the same as a later one. -/
def Apart (ns : List (Node α)) : Prop := ns.Pairwise fun m n => m.name.same n.name = false

theorem apart_of_areDistinct (h : areDistinct (ns.map (·.name))) : Apart ns := by
  induction ns with
  | nil => exact .nil
  | cons n ns ih =>
    rw [map_cons, areDistinct, Bool.and_eq_true, Bool.not_eq_true', isIn, any_map] at h
    refine .cons (fun m hm => ?_) (ih h.2)
    rw [← Bool.not_eq_true]
    exact fun hsame => Bool.false_ne_true (h.1.symm.trans (any_eq_true.mpr ⟨m, hm, hsame⟩))

/-- The nodes that wait after `n` has been written. -/
def others (n : Node α) (waiting : List (Node α)) : List (Node α) := waiting.filter (!hasName n.name ·)

theorem mem_of_mem_others {k : Node α} (h : k ∈ others n waiting) : k ∈ waiting :=
  (mem_filter.mp h).1

theorem Apart.others (h : Apart ns) (n) : Apart (others n ns) :=
  h.sublist filter_sublist

/-! ## One step written -/

theorem least_mem (n : Node α) (ns : List (Node α)) : least n ns ∈ n :: ns := by
  fun_induction least n ns with
  | case1 n => exact mem_singleton_self n
  | case2 n m ns _ ih => exact mem_cons_of_mem _ ih
  | case3 n m ns _ ih =>
    rw [mem_cons] at ih
    exact mem_cons.mpr (ih.imp_right (.tail _))

theorem eq_nil_of_ended (h : (.ok (if waiting.isEmpty then some [] else none) : Except Fault _) = .ok (some os)) :
    waiting = [] ∧ os = [] := by
  cases waiting with
  | nil => cases h; exact ⟨rfl, rfl⟩
  | cons n waiting => cases h

/-- Either no step waits, or of the ready ones that with the least name is written and those of other names go on
    waiting. -/
theorem arrangeFrom_succ_some (h : arrangeFrom (k + 1) all written waiting = .ok (some os)) :
    (waiting = [] ∧ os = []) ∨ ∃ m ready rest, waiting.filter (isReady all written) = m :: ready ∧
      os = least m ready :: rest ∧
      arrangeFrom k all (written ++ [(least m ready).name]) (others (least m ready) waiting) = .ok (some rest) := by
  simp only [arrangeFrom] at h
  cases hf : waiting.filter (isReady all written) with
  | nil =>
    rw [hf] at h
    exact .inl (eq_nil_of_ended h)
  | cons m ready =>
    rw [hf] at h
    obtain ⟨⟨⟩, -, h⟩ := bind_eq_ok.mp h
    obtain ⟨o, htail, h⟩ := bind_eq_ok.mp h
    obtain ⟨rest, rfl, hos⟩ := Option.map_eq_some_iff.mp (Except.ok.inj h)
    exact .inr ⟨m, ready, rest, rfl, hos.symm, htail⟩

theorem least_ready (hf : waiting.filter (isReady all written) = m :: ready) :
    least m ready ∈ waiting ∧ isReady all written (least m ready) = true :=
  mem_filter.mp (hf ▸ least_mem m ready)

/-- A step whose name is not the same as itself would wait forever. -/
theorem same_self_of_arrangeFrom (hkeys : KeyNamed waiting) (h : arrangeFrom k all written waiting = .ok (some os)) :
    ∀ n ∈ waiting, n.name.same n.name = true := by
  induction k generalizing written waiting os with
  | zero => simp [(eq_nil_of_ended h).1]
  | succ k ih =>
    rcases arrangeFrom_succ_some h with ⟨rfl, -⟩ | ⟨m, ready, rest, -, -, hrest⟩
    · simp
    · intro n hn
      by_cases hsame : n.name.same (least m ready).name = true
      · rw [Value.same_comm (hkeys n hn)] at hsame
        exact Value.same_self (hkeys n hn) hsame
      · refine ih (hkeys.of_subset fun _ => mem_of_mem_others) hrest n (mem_filter.mpr ⟨hn, ?_⟩)
        simpa [hasName] using hsame

/-! ## All steps written -/

/-- Of names that are apart, dropping one that is the same as itself drops exactly its step. -/
theorem perm_others (hkeys : KeyNamed ns) (hapart : Apart ns) (hn : n ∈ ns) (hself : n.name.same n.name) :
    ns.Perm (n :: others n ns) := by
  induction ns with
  | nil => cases hn
  | cons m ns ih =>
    obtain ⟨hm, hapart⟩ := pairwise_cons.mp hapart
    have htail : KeyNamed ns := hkeys.of_subset fun _ h => mem_cons_of_mem _ h
    rcases mem_cons.mp hn with rfl | hn
    · have hkeep : others n ns = ns := by
        refine filter_eq_self.mpr fun k hk => ?_
        rw [hasName, ← Value.same_comm (hkeys n mem_cons_self), hm k hk]
        rfl
      rw [others, filter_cons_of_neg (by simp [hasName, hself]), ← others, hkeep]
    · have hstay : others n (m :: ns) = m :: others n ns :=
        filter_cons_of_pos (by simp [hasName, hm n hn])
      rw [hstay]
      exact ((ih htail hapart hn).cons m).trans (.swap ..)

theorem arrangeFrom_perm (hkeys : KeyNamed waiting) (hapart : Apart waiting)
    (h : arrangeFrom k all written waiting = .ok (some os)) : waiting.Perm os := by
  induction k generalizing written waiting os with
  | zero =>
    obtain ⟨rfl, rfl⟩ := eq_nil_of_ended h
    exact .refl _
  | succ k ih =>
    have hself := same_self_of_arrangeFrom hkeys h
    rcases arrangeFrom_succ_some h with ⟨rfl, rfl⟩ | ⟨m, ready, rest, hf, rfl, hrest⟩
    · exact .refl _
    · have hn := (least_ready hf).1
      have hrest := ih (hkeys.of_subset fun _ => mem_of_mem_others) (hapart.others _) hrest
      exact (perm_others hkeys hapart hn (hself _ hn)).trans (hrest.cons _)

theorem arrange_some_iff : arrange ns = .ok (some os) ↔
    areDistinct (ns.map (·.name)) ∧ arrangeFrom ns.length (ns.map (·.name)) [] ns = .ok (some os) := by
  rw [arrange]
  split <;> simp_all

theorem arrange_perm_of_keys (hkeys : KeyNamed ns) (h : arrange ns = .ok (some os)) : ns.Perm os := by
  obtain ⟨hdistinct, h⟩ := arrange_some_iff.mp h
  exact arrangeFrom_perm hkeys (apart_of_areDistinct hdistinct) h

/-! ## From documents -/

theorem forM_requireName_ok {steps : List Value} (h : steps.forM requireName = .ok ()) :
    ∀ step ∈ steps, ∃ name, step.field "name" = .ok name ∧ name.requireHashable = .ok () := by
  induction steps with
  | nil => simp
  | cons step steps ih =>
    obtain ⟨⟨⟩, hstep, h⟩ := bind_eq_ok.mp h
    exact forall_mem_cons.mpr ⟨bind_eq_ok.mp hstep, ih h⟩

theorem nodeOf_ok_eq {n : Node Value} (h : nodeOf step = .ok n) : step.field "name" = .ok n.name ∧ n.step = step := by
  simp only [nodeOf, bind_eq_ok] at h
  obtain ⟨name, hname, _, -, _, -, _, -, h⟩ := h
  cases h
  exact ⟨hname, rfl⟩

/-- Every step has a name that can be entered in a set, and each is listed once, whether there is an order or not. -/
theorem sortSteps_perm (h : sortSteps steps = .ok (ordered, found)) :
    (∀ step ∈ steps, ∃ name, step.field "name" = .ok name ∧ name.requireHashable = .ok ()) ∧ steps.Perm ordered := by
  obtain ⟨⟨⟩, hnames, h⟩ := bind_eq_ok.mp h
  obtain ⟨ns, hns, h⟩ := bind_eq_ok.mp h
  obtain ⟨o, ho, h⟩ := bind_eq_ok.mp h
  have hnamed := forM_requireName_ok hnames
  refine ⟨hnamed, ?_⟩
  cases o with
  | none => cases h; exact .refl _
  | some os =>
    cases h
    have hnodes := mapM_eq_ok_iff.mp hns
    have hkeys : KeyNamed ns := by
      intro n hn
      obtain ⟨step, hstep, hnode⟩ := exists_of_mem_right hnodes hn
      obtain ⟨name, hname, hkey⟩ := hnamed step hstep
      cases hname.symm.trans (nodeOf_ok_eq hnode).1
      exact hkey
    have hperm := (arrange_perm_of_keys hkeys ho).map (·.step)
    rwa [← map_eq_of_forall₂ hnodes fun step n hnode => (nodeOf_ok_eq hnode).2.symm, map_id'] at hperm

end Dataflow.Order

end MappingFlow
