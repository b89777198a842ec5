/-
  MappingFlow.Proofs.Conversion.Stable — what converting a step does to the state.

  It may remark on the step, report an error and, for a derived column, learn a casing.
  Nothing else, and it looks at the state only for what is no note: every kind of step is
  composed of these (`Composed`). So a property of states that they keep (`Stable`) is kept
  by the whole step. None of the remarks begins like the warning that a transformation is
  left out.
-/

import MappingFlow.Conversion.Basic
import MappingFlow.Proofs.Running

namespace MappingFlow.Conversion

/-! ## Remarks -/

/-- A warning that says something else than that a transformation is left out: that one begins with a `T`. -/
def IsRemark (w : String) : Prop := ∃ c, w.toList.head? = some c ∧ c ≠ 'T'

theorem IsRemark.append (h : IsRemark w) (rest) : IsRemark (w ++ rest) := by
  obtain ⟨c, hc, hne⟩ := h
  exact ⟨c, by rw [String.toList_append, List.head?_append, hc, Option.some_or], hne⟩

/-- Kept by remarks and by errors. -/
structure Stable (P : State → Prop) : Prop where
  remark : ∀ s w, IsRemark w → P s → P { s with warnings := s.warnings ++ [w] }
  error : ∀ s e, P s → P { s with errors := s.errors ++ [e] }

/-- Kept also when the casing of a column becomes known. -/
structure StableLearning (P : State → Prop) : Prop extends Stable P where
  learn : ∀ s name, P s → P { s with casing := learnCasing name s.casing }

/-! ## What steps are composed of -/

/-- The state with other notes in front. -/
def State.behind (s : State) (ws es : List String) : State :=
  { s with warnings := ws ++ s.warnings, errors := es ++ s.errors }

/-- A program that remarks, reports and asks for what is not a note, and learns casings only if `learns`. -/
inductive Composed (learns : Prop) : {α : Type} → Converting α → Prop
  | pure {α : Type} (a : α) : Composed learns (pure a : Converting α)
  | lift {α : Type} (e : Except Fault α) : Composed learns (monadLift e : Converting α)
  | throw {α : Type} (f : Fault) : Composed learns (throw f : Converting α)
  | remark {w : String} (h : IsRemark w) : Composed learns (warn w)
  | error (e : String) : Composed learns (reportError e)
  | learn (name : String) (h : learns) :
    Composed learns (modify fun s => { s with casing := learnCasing name s.casing } : Converting Unit)
  | bind {α β : Type} {x : Converting α} {k : α → Converting β} (hx : Composed learns x)
    (hk : ∀ a, Composed learns (k a)) : Composed learns (x >>= k)
  | ask {β : Type} {k : State → Converting β} (hsame : ∀ s ws es, k (s.behind ws es) = k s)
    (hk : ∀ s, Composed learns (k s)) : Composed learns (get >>= k)

section

variable {P : State → Prop} {learns : Prop} {α : Type}

theorem Composed.ite {c : Prop} [Decidable c] (hx : Composed learns x) (hy : Composed learns y) :
    Composed learns (if c then x else y) := by
  split
  · exact hx
  · exact hy

theorem Composed.preserves (h : Composed learns x) (hP : Stable P) (hlearn : learns → StableLearning P) :
    Preserves P x := by
  induction h with
  | pure a => exact .pure
  | lift e => exact .lift
  | throw f => exact .throw
  | remark hw => exact .modify fun s hs => hP.remark s _ hw hs
  | error e => exact .modify fun s hs => hP.error s e hs
  | learn name hl => exact .modify fun s hs => (hlearn hl).learn s name hs
  | bind _ _ hx hk => exact .bind hx hk
  | ask _ _ hk => exact .bind .get hk

theorem Stable.composed (hP : Stable P) (h : Composed False x) : Preserves P x := h.preserves hP False.elim

theorem StableLearning.composed (hP : StableLearning P) (h : Composed True x) : Preserves P x :=
  h.preserves hP.toStable fun _ => hP

end

/-! ## Every step -/

variable {learns : Prop}

theorem composed_convertCondition (v : Value) : Composed learns (convertCondition r v) :=
  .bind (.ask (fun _ _ _ => rfl) fun _ => .lift _) fun _ => .bind (.lift _) fun _ => .pure _

theorem composed_derivedColumns (cs) : Composed True (derivedColumns r cs) := by
  induction cs with
  | nil => exact .pure _
  | cons c cs ih =>
    refine .bind ?_ fun _ => .bind ih fun _ => .pure _
    unfold derivedColumn
    split
    · exact .pure _
    · refine .ite (.pure _) (.bind (composed_convertCondition _) fun _ => ?_)
      exact .bind (.learn _ trivial) fun _ => .pure _

theorem composed_aggregateOf (v : Value) : Composed learns (aggregateOf r v) :=
  .bind (.lift _) fun _ => .bind (composed_convertCondition _) fun _ => .bind (.lift _) fun _ => .pure _

theorem composed_aggregatesOf (vs) : Composed learns (aggregatesOf r vs) := by
  induction vs with
  | nil => exact .pure _
  | cons v vs ih => exact .bind (composed_aggregateOf v) fun _ => .bind ih fun _ => .pure _

theorem composed_aggregateColumns (cs) : Composed learns (aggregateColumns r cs) := by
  induction cs with
  | nil => exact .pure _
  | cons c cs ih =>
    unfold aggregateColumns
    split
    · exact .ite (.bind (composed_convertCondition _) fun _ => .bind ih fun _ => .pure _) ih
    · exact ih

/-- A step may end with a remark and a further member. -/
theorem composed_warnIf (b : Bool) (fs gs) (h : IsRemark w) :
    Composed learns (if b then do warn w; return .object (fs ++ gs) else return .object fs : Converting Value) :=
  .ite (.bind (.remark h) fun _ => .pure _) (.pure _)

theorem composed_warnWhen (e : Except Fault Bool) (fs gs : Fields) (h : IsRemark w) :
    Composed learns (do if ← e then warn w return .object (fs ++ gs) else return .object fs : Converting Value) :=
  .bind (.lift _) fun b => composed_warnIf b fs gs h

theorem composed_aggregateStep : Composed learns (aggregateStep r t type) := by
  have hremark : IsRemark "Aggregator '" := ⟨'A', rfl, by decide⟩
  refine .bind (.lift _) fun _ => .bind (composed_aggregatesOf _) fun _ => .ite ?_ ?_
  · exact .bind (composed_aggregateColumns _) fun _ => composed_warnIf _ _ _ ((hremark.append _).append _)
  · exact composed_warnIf _ _ _ ((hremark.append _).append _)

theorem composed_resolveFeed (name) : Composed learns (resolveFeed name) := by
  refine .ask (fun _ _ _ => rfl) fun s => ?_
  split
  · exact .pure _
  · exact .throw _

theorem composed_joinInputs (name) : Composed learns (joinInputs name) := by
  refine .ask (fun _ _ _ => rfl) fun s => ?_
  dsimp only
  rcases distinct (s.feedsInto name) with _ | ⟨left, _ | ⟨right, rest⟩⟩
  · exact .bind (.error _) fun _ => .pure _
  · exact .bind (composed_resolveFeed _) fun _ => .bind (.error _) fun _ => .pure _
  · refine .bind (composed_resolveFeed _) fun _ => .bind (composed_resolveFeed _) fun _ => .ite ?_ (.pure _)
    exact .bind (.error _) fun _ => .pure _

theorem isRemark_joiner (name rest) : IsRemark ("Joiner '" ++ name ++ rest) :=
  (IsRemark.append ⟨'J', rfl, by decide⟩ name).append rest

theorem composed_joinStep : Composed learns (joinStep t type) := by
  refine .bind (.lift _) fun _ => .bind (.lift _) fun _ => .bind (composed_joinInputs _) fun _ => .ite ?_ ?_
  · exact .bind (.remark (isRemark_joiner _ _)) fun _ => composed_warnWhen _ _ _ (isRemark_joiner _ _)
  · exact composed_warnWhen _ _ _ (isRemark_joiner _ _)

theorem composed_sortStep : Composed learns (sortStep t type) := by
  have hremark : IsRemark "Sorter '" := ⟨'S', rfl, by decide⟩
  refine .bind (.lift _) fun _ => .bind (.lift _) fun _ => .ite ?_ (.pure _)
  exact .bind (.remark ((hremark.append _).append _)) fun _ => .pure _

theorem composed_splitGroups (gs) : Composed learns (splitGroups r gs) := by
  induction gs with
  | nil => exact .pure _
  | cons g gs ih =>
    refine .bind (.bind (.lift _) fun _ => .ite ?_ (.pure _)) fun _ => .bind ih fun _ => .pure _
    refine .bind (.lift _) fun _ => .ite ?_ (.pure _)
    exact .bind (.lift _) fun _ => .bind (.lift _) fun _ => .bind (.lift _) fun _ => .pure _

theorem composed_splitStep : Composed learns (splitStep r t type) := by
  have hremark : IsRemark "Router '" := ⟨'R', rfl, by decide⟩
  refine .bind (.lift _) fun _ => .bind (composed_splitGroups _) fun _ => .ite ?_ (.pure _)
  exact .bind (.remark ((((hremark.append _).append _).append _).append _)) fun _ => .pure _

theorem composed_lookupStep : Composed learns (lookupStep t type) := by
  have hremark : ∀ rest, IsRemark ("Lookup '" ++ t.name ++ rest) :=
    (IsRemark.append ⟨'L', rfl, by decide⟩ t.name).append
  have main : Composed learns (mainInput t.name) := by
    refine .ask (fun _ _ _ => rfl) fun s => ?_
    split
    · exact .pure _
    · exact .bind (composed_resolveFeed _) fun _ => .pure _
  have override : Composed learns (overrideMembers t) := .ite (.bind (.remark (hremark _)) fun _ => .pure _) (.pure _)
  have file : Composed learns (fileMembers t) := .ite (.bind (.remark (hremark _)) fun _ => .pure _) (.pure _)
  have policy : Composed learns (policyNote t) := .ite (.pure _) (.remark (((hremark _).append _).append _))
  refine .bind (.lift _) fun _ => .bind main fun _ => .bind (.lift _) fun _ => .bind (.lift _) fun _ => ?_
  exact .bind override fun _ => .bind file fun _ => .bind policy fun _ => .pure _

theorem composed_strategyCondition (strategy expression : Value) :
    Composed learns (strategyCondition r strategy expression) :=
  .ite (.pure _) (.bind (.lift _) fun _ => .ite (.pure _) (.bind (.lift _) fun _ => .pure _))

theorem composed_changeStep : Composed learns (changeStep r t type) := by
  have hremark : IsRemark "Update Strategy '" := ⟨'U', rfl, by decide⟩
  refine .bind (.lift _) fun _ => .bind (composed_strategyCondition _ _) fun _ => .ite ?_ (.pure _)
  exact .bind (.remark ((hremark.append _).append _)) fun _ => .pure _

/-- Only a derived column makes a casing known. -/
theorem composed_convertStep : Composed True (convertStep r t type) := by
  unfold convertStep
  split
  · exact .bind (composed_derivedColumns _) fun _ => .pure _
  · exact .bind (composed_convertCondition _) fun _ => .pure _
  · exact composed_aggregateStep
  · exact composed_joinStep
  · exact composed_sortStep
  · exact composed_splitStep
  · exact composed_lookupStep
  · exact composed_lookupStep
  · exact composed_changeStep
  · exact .pure _

theorem composed_convertEndpoints (kind es) : Composed learns (convertEndpoints (convertEndpoint r kind) es) := by
  induction es with
  | nil => exact .pure _
  | cons e es ih => exact .bind (.bind (.lift _) fun _ => .pure _) fun _ => .bind ih fun _ => .pure _

/-- The columns of the sources are noted with remarks on their casing. -/
theorem StableLearning.noteColumns {P : State → Prop} (hP : StableLearning P) (names : List String) {s : State} (hs : P s) :
    P (names.foldl noteColumn s) := by
  induction names generalizing s with
  | nil => exact hs
  | cons name names ih =>
    refine ih ?_
    have hlearned := hP.learn s name hs
    unfold noteColumn casingConflict?
    split
    · rename_i known _
      split
      · simpa using hlearned
      · have hremark : IsRemark "Columna '" := ⟨'C', rfl, by decide⟩
        have hremark := (hremark.append name).append "' encontrada con múltiples casings: '"
        have hremark := (((hremark.append known).append "' y '").append name).append "'. Usando '"
        exact hP.remark _ _ ((hremark.append known).append "'.") hlearned
    · simpa using hlearned

end MappingFlow.Conversion
