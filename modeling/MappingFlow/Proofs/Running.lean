/-
  MappingFlow.Proofs.Running — what a run that succeeds went through.

  Reviews, conversions and generators all keep a state and may stop with a fault, and
  keep the state when they do. `Runs x s a t` says that `x`, begun in `s`, answers `a`
  and leaves `t`. Each way to build such a program has one lemma that takes a
  successful run apart, so that no proof has to open the programs themselves.

  `Ensures P x Q` is the same seen from outside: whatever state with `P` a successful
  run begins in, its answer and the state it leaves have `Q`. `Preserves P x` is the
  case of an invariant, and `Answers x Q` the case in which states do not matter.
  `Yields x Q` says more: there is an answer, whatever the state, and it has `Q`.
-/

import MappingFlow.Fault

namespace MappingFlow

variable {σ α β : Type}

/-- The answer of a program and the state it leaves. -/
def outcome (x : ExceptT Fault (StateM σ) α) (s : σ) : Except Fault α × σ := x.run.run s

def Runs (x : ExceptT Fault (StateM σ) α) (s : σ) (a : α) (t : σ) : Prop := outcome x s = (.ok a, t)

theorem outcome_bind (x : ExceptT Fault (StateM σ) α) (f : α → ExceptT Fault (StateM σ) β) (s : σ) :
    outcome (x >>= f) s = match outcome x s with
      | (.ok a, t) => outcome (f a) t
      | (.error e, t) => (.error e, t) := by
  unfold outcome
  rw [ExceptT.run_bind, StateT.run_bind]
  change (match x.run.run s with | (e, t) => _) = _
  rcases x.run.run s with ⟨e | a, t⟩ <;> rfl

theorem outcome_tryCatch (x) (handle : Fault → ExceptT Fault (StateM σ) α) (s : σ) :
    outcome (tryCatch x handle) s = match outcome x s with
      | (.ok a, t) => (.ok a, t)
      | (.error e, t) => outcome (handle e) t := by
  have h : outcome (tryCatch x handle) s = (ExceptT.tryCatch x handle).run.run s := rfl
  rw [h, ExceptT.tryCatch, ExceptT.run_mk, StateT.run_bind]
  have hx : StateT.run x s = outcome x s := rfl
  rw [hx]
  rcases outcome x s with ⟨e | a, t⟩ <;> rfl

variable {e : Except Fault α}

namespace Runs

@[simp] theorem pure_iff : Runs (pure a : ExceptT Fault (StateM σ) α) s b t ↔ a = b ∧ s = t := by
  rw [Runs, show outcome (pure a : ExceptT Fault (StateM σ) α) s = (.ok a, s) from rfl]
  simp

theorem bind_iff {b : β} : Runs (x >>= k) s b u ↔ ∃ a t, Runs x s a t ∧ Runs (k a) t b u := by
  simp only [Runs, outcome_bind]
  rcases outcome x s with ⟨e | a, t⟩
  · simp
  · simp only [Prod.mk.injEq, Except.ok.injEq]
    exact ⟨fun h => ⟨a, t, ⟨rfl, rfl⟩, h⟩, fun ⟨_, _, ⟨rfl, rfl⟩, h⟩ => h⟩

@[simp] theorem lift_iff : Runs (monadLift e : ExceptT Fault (StateM σ) α) s a t ↔ e = .ok a ∧ s = t := by
  rw [Runs, show outcome (monadLift e : ExceptT Fault (StateM σ) α) s = (e, s) from rfl]
  simp

theorem bind_lift_iff {b : β} : Runs (monadLift e >>= k) s b t ↔ ∃ a, e = .ok a ∧ Runs (k a) s b t := by
  simp only [bind_iff, lift_iff]
  constructor
  · rintro ⟨a, _, ⟨he, rfl⟩, hrest⟩
    exact ⟨a, he, hrest⟩
  · rintro ⟨a, he, hrest⟩
    exact ⟨a, s, ⟨he, rfl⟩, hrest⟩

@[simp] theorem get_iff : Runs (get : ExceptT Fault (StateM σ) σ) s r t ↔ s = r ∧ s = t := by
  rw [Runs, show outcome (get : ExceptT Fault (StateM σ) σ) s = (.ok s, s) from rfl]
  simp

@[simp] theorem modify_iff : Runs (modify f : ExceptT Fault (StateM σ) Unit) s r t ↔ f s = t := by
  rw [Runs, show outcome (modify f : ExceptT Fault (StateM σ) Unit) s = (.ok (), f s) from rfl]
  simp

@[simp] theorem set_iff : Runs (set u : ExceptT Fault (StateM σ) PUnit) s r t ↔ u = t := by
  rw [Runs, show outcome (set u : ExceptT Fault (StateM σ) PUnit) s = (.ok ⟨⟩, u) from rfl]
  simp

@[simp] theorem throw_iff {e : Fault} : Runs (throw e : ExceptT Fault (StateM σ) α) s a t ↔ False := by
  rw [Runs, show outcome (throw e : ExceptT Fault (StateM σ) α) s = (.error e, s) from rfl]
  simp

theorem tryCatch_iff :
    Runs (tryCatch x handle) s a t ↔ Runs x s a t ∨ ∃ e u, outcome x s = (.error e, u) ∧ Runs (handle e) u a t := by
  simp only [Runs, outcome_tryCatch]
  rcases outcome x s with ⟨e | b, u⟩
  · simp [and_assoc]
  · simp

theorem of_isOk (h : (outcome x s).1.isOk) : ∃ a, Runs x s a (outcome x s).2 := by
  unfold Runs
  generalize outcome x s = o at h ⊢
  obtain ⟨e | a, t⟩ := o
  · cases h
  · exact ⟨a, rfl⟩

theorem of_toOption (h : (outcome x s).1.toOption = some a) : Runs x s a (outcome x s).2 := by
  unfold Runs
  generalize outcome x s = o at h ⊢
  obtain ⟨e | b, t⟩ := o
  · cases h
  · obtain rfl : b = a := Option.some.inj h
    rfl

end Runs

/-! ## Before and after -/

def Ensures (P : σ → Prop) (x : ExceptT Fault (StateM σ) α) (Q : α → σ → Prop) : Prop :=
  ∀ s a t, P s → Runs x s a t → Q a t

def Preserves (P : σ → Prop) (x : ExceptT Fault (StateM σ) α) : Prop := Ensures P x fun _ => P

namespace Ensures

variable {P : σ → Prop} {Q : α → σ → Prop} {R : β → σ → Prop}

theorem pure (h : ∀ s, P s → Q a s) : Ensures P (pure a) Q := by
  intro s b t hs hrun
  obtain ⟨rfl, rfl⟩ := Runs.pure_iff.mp hrun
  exact h s hs

theorem bind (hx : Ensures P x Q) (hk : ∀ a, Ensures (Q a) (k a) R) : Ensures P (x >>= k) R := by
  intro s b u hs hrun
  obtain ⟨a, t, hfirst, hrest⟩ := Runs.bind_iff.mp hrun
  exact hk a t b u (hx s a t hs hfirst) hrest

theorem lift (h : ∀ s a, P s → e = .ok a → Q a s) : Ensures P (monadLift e) Q := by
  intro s a t hs hrun
  obtain ⟨he, rfl⟩ := Runs.lift_iff.mp hrun
  exact h s a hs he

theorem get {Q : σ → σ → Prop} (h : ∀ s, P s → Q s s) : Ensures P (get : ExceptT Fault (StateM σ) σ) Q := by
  intro s a t hs hrun
  obtain ⟨rfl, rfl⟩ := Runs.get_iff.mp hrun
  exact h s hs

theorem modify {Q : Unit → σ → Prop} (h : ∀ s, P s → Q () (f s)) :
    Ensures P (modify f : ExceptT Fault (StateM σ) Unit) Q := by
  intro s a t hs hrun
  rw [← Runs.modify_iff.mp hrun]
  exact h s hs

theorem ite {c : Prop} [Decidable c] (hx : c → Ensures P x Q) (hy : ¬c → Ensures P y Q) :
    Ensures P (if c then x else y) Q := by
  split
  · exact hx ‹_›
  · exact hy ‹_›

theorem bind_lift (h : ∀ a, e = .ok a → Ensures P (k a) R) : Ensures P (monadLift e >>= k) R := by
  intro s b t hs hrun
  obtain ⟨a, he, hrest⟩ := Runs.bind_lift_iff.mp hrun
  exact h a he s b t hs hrest

theorem bind_get {k : σ → ExceptT Fault (StateM σ) β} (h : ∀ s, P s → Ensures P (k s) R) :
    Ensures P (MonadState.get >>= k) R := by
  intro s b t hs hrun
  obtain ⟨a, s', hget, hrest⟩ := Runs.bind_iff.mp hrun
  obtain ⟨rfl, rfl⟩ := Runs.get_iff.mp hget
  exact h s hs s b t hs hrest

theorem of_and {p : Prop} (h : p → Ensures P x Q) : Ensures (fun s => p ∧ P s) x Q := fun s a t hs hrun =>
  h hs.1 s a t hs.2 hrun

end Ensures

namespace Preserves

variable {P : σ → Prop}

theorem pure : Preserves P (pure a : ExceptT Fault (StateM σ) α) := Ensures.pure fun _ => id

theorem bind (hx : Preserves P x) (hk : ∀ a, Preserves P (k a)) : Preserves P (x >>= k) := Ensures.bind hx hk

theorem lift : Preserves P (monadLift e : ExceptT Fault (StateM σ) α) :=
  Ensures.lift fun _ _ hs _ => hs

theorem get : Preserves P (get : ExceptT Fault (StateM σ) σ) := Ensures.get fun _ => id

theorem throw {e : Fault} : Preserves P (throw e : ExceptT Fault (StateM σ) α) := fun _ _ _ _ hrun =>
  (Runs.throw_iff.mp hrun).elim

theorem modify (h : ∀ s, P s → P (f s)) : Preserves P (modify f : ExceptT Fault (StateM σ) Unit) := Ensures.modify h

theorem ite {c : Prop} [Decidable c] (hx : Preserves P x) (hy : Preserves P y) : Preserves P (if c then x else y) :=
  Ensures.ite (fun _ => hx) fun _ => hy

end Preserves

/-! ## Answers alone -/

theorem bind_eq_ok {x : Except Fault α} {k : α → Except Fault β} : x >>= k = .ok b ↔ ∃ a, x = .ok a ∧ k a = .ok b := by
  cases x with
  | error e => exact ⟨fun h => (by cases h), fun ⟨_, h, _⟩ => (by cases h)⟩
  | ok a => exact ⟨fun h => ⟨a, rfl, h⟩, fun ⟨_, h, h'⟩ => by cases h; exact h'⟩

theorem of_ok_bind {k : α → Except Fault β} (he : e = .ok a) (h : e >>= k = .ok b) : k a = .ok b := by
  rw [he] at h
  exact h

theorem ok_of_toOption {ε : Type} {e : Except ε α} (h : e.toOption = some a) : e = .ok a := by
  cases e with
  | error x => cases h
  | ok b => rw [Option.some.inj h]

def Answers (x : ExceptT Fault (StateM σ) α) (Q : α → Prop) : Prop := ∀ s a t, Runs x s a t → Q a

namespace Answers

variable {Q : α → Prop} {R : β → Prop}

theorem pure (h : Q a) : Answers (pure a : ExceptT Fault (StateM σ) α) Q := by
  intro s b t hrun
  obtain ⟨rfl, -⟩ := Runs.pure_iff.mp hrun
  exact h

theorem bind (hx : Answers x Q) (hk : ∀ a, Q a → Answers (k a) R) : Answers (x >>= k) R := by
  intro s b u hrun
  obtain ⟨a, t, hfirst, hrest⟩ := Runs.bind_iff.mp hrun
  exact hk a (hx s a t hfirst) t b u hrest

theorem bind_ok (he : e = .ok a) (hk : Answers (k a) R) : Answers (monadLift e >>= k) R := by
  intro s b u hrun
  obtain ⟨a', he', hrest⟩ := Runs.bind_lift_iff.mp hrun
  obtain rfl : a = a' := Except.ok.inj (he.symm.trans he')
  exact hk s b u hrest

theorem ensures {P : σ → Prop} (hx : Answers x Q) : Ensures P x fun a _ => Q a := fun s a t _ => hx s a t

/-- What comes first does not matter. -/
theorem after (hk : ∀ a, Answers (k a) R) : Answers (x >>= k) R := by
  intro s b u hrun
  obtain ⟨a, t, -, hrest⟩ := Runs.bind_iff.mp hrun
  exact hk a t b u hrest

theorem lift (h : ∀ a, e = .ok a → Q a) : Answers (monadLift e : ExceptT Fault (StateM σ) α) Q := by
  intro s a t hrun
  exact h a (Runs.lift_iff.mp hrun).1

theorem imp {Q' : α → Prop} (hx : Answers x Q) (h : ∀ a, Q a → Q' a) : Answers x Q' := fun s a t hrun =>
  h a (hx s a t hrun)

theorem throw {e : Fault} : Answers (throw e : ExceptT Fault (StateM σ) α) Q := by
  intro s a t hrun
  exact (Runs.throw_iff.mp hrun).elim

theorem ite {c : Prop} [Decidable c] (hx : c → Answers x Q) (hy : ¬c → Answers y Q) :
    Answers (if c then x else y) Q := by
  split
  · exact hx ‹_›
  · exact hy ‹_›

end Answers

/-! ## Answers that are always given -/

def Yields (x : ExceptT Fault (StateM σ) α) (Q : α → Prop) : Prop := ∀ s, ∃ a t, Runs x s a t ∧ Q a

namespace Yields

variable {Q : α → Prop} {R : β → Prop}

theorem pure (h : Q a) : Yields (pure a : ExceptT Fault (StateM σ) α) Q := fun s =>
  ⟨a, s, Runs.pure_iff.mpr ⟨rfl, rfl⟩, h⟩

theorem bind (hx : Yields x Q) (hk : ∀ a, Q a → Yields (k a) R) : Yields (x >>= k) R := by
  intro s
  obtain ⟨a, t, hfirst, ha⟩ := hx s
  obtain ⟨b, u, hrest, hb⟩ := hk a ha t
  exact ⟨b, u, Runs.bind_iff.mpr ⟨a, t, hfirst, hrest⟩, hb⟩

theorem imp {Q' : α → Prop} (hx : Yields x Q) (h : ∀ a, Q a → Q' a) : Yields x Q' := fun s =>
  have ⟨a, t, hrun, ha⟩ := hx s
  ⟨a, t, hrun, h a ha⟩

theorem ok (he : e = .ok a) (h : Q a) : Yields (monadLift e : ExceptT Fault (StateM σ) α) Q := fun s =>
  ⟨a, s, Runs.lift_iff.mpr ⟨he, rfl⟩, h⟩

theorem bind_ok (he : e = .ok a) (hk : Yields (k a) R) : Yields (monadLift e >>= k) R :=
  bind (ok (Q := (· = a)) he rfl) fun _ hb => hb ▸ hk

theorem modify (f : σ → σ) : Yields (modify f : ExceptT Fault (StateM σ) Unit) fun _ => True := fun s =>
  ⟨(), f s, Runs.modify_iff.mpr rfl, trivial⟩

theorem ite {c : Prop} [Decidable c] (hx : c → Yields x Q) (hy : ¬c → Yields y Q) : Yields (if c then x else y) Q := by
  split
  · exact hx ‹_›
  · exact hy ‹_›

end Yields

end MappingFlow
