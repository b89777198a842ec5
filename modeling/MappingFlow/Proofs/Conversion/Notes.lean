/-
  MappingFlow.Proofs.Conversion.Notes — a conversion adds to what was noted before and
  never looks at it.

  `Additive x`: with other notes in front, `x` answers the same, or stops with the same
  fault, and leaves the same state with these notes in front. Every part of a conversion is
  additive. What a conversion does read (feeds, casing, the mapping) is replaced when a
  mapping begins (`begun_eq`), so nothing that was done with the converter before can change
  what becomes of the mapping (`history_leaves_no_trace`).
-/

import MappingFlow.Proofs.Conversion.Stable

namespace MappingFlow.Conversion

variable {α β : Type}

def Additive (x : Converting α) : Prop :=
  ∀ s ws es, outcome x (s.behind ws es) = ((outcome x s).1, (outcome x s).2.behind ws es)

namespace Additive

theorem pure (a : α) : Additive (pure a) := fun _ _ _ => rfl

theorem lift (e : Except Fault α) : Additive (monadLift e : Converting α) := fun _ _ _ => rfl

theorem modify (h : ∀ s ws es, f (s.behind ws es) = (f s).behind ws es) : Additive (modify f : Converting Unit) := by
  intro s ws es
  change (Except.ok (), f (s.behind ws es)) = (Except.ok (), (f s).behind ws es)
  rw [h]

theorem bind (hx : Additive x) (hk : ∀ a, Additive (k a)) : Additive (x >>= k) := by
  intro s ws es
  rw [outcome_bind, outcome_bind, hx]
  obtain ⟨e | a, t⟩ := outcome x s
  · rfl
  · exact hk a t ws es

/-- The state may be asked for what is not a note. -/
theorem bind_get (hsame : ∀ s ws es, k (s.behind ws es) = k s) (hk : ∀ s, Additive (k s)) : Additive (get >>= k) := by
  intro s ws es
  change outcome (k (s.behind ws es)) (s.behind ws es) = ((outcome (k s) s).1, (outcome (k s) s).2.behind ws es)
  rw [hsame, hk s]

theorem ite {c : Prop} [Decidable c] (hx : Additive x) (hy : Additive y) : Additive (if c then x else y) := by
  split
  · exact hx
  · exact hy

end Additive

theorem additive_warn (w) : Additive (warn w) := .modify fun s ws es => by simp [State.behind]

theorem Composed.additive (h : Composed True x) : Additive x := by
  induction h with
  | pure a => exact .pure a
  | lift e => exact .lift e
  | throw f => exact fun _ _ _ => rfl
  | remark _ => exact additive_warn _
  | error e => exact .modify fun s ws es => by simp [State.behind]
  | learn name _ => exact .modify fun _ _ _ => rfl
  | bind _ _ hx hk => exact .bind hx hk
  | ask hsame _ hk => exact .bind_get hsame hk

/-! ## The parts of a conversion -/

variable (r : Rules) (t : Transformation)

theorem additive_convertTransformation : Additive (convertTransformation r t) := by
  refine .bind (.lift _) fun type => .ite ?_ ?_
  · exact .bind composed_convertStep.additive fun _ => .pure _
  · exact .bind (additive_warn _) fun _ => .pure _

theorem additive_convertTransformations (ts) : Additive (convertTransformations r ts) := by
  induction ts with
  | nil => exact .pure _
  | cons t ts ih => exact .bind (additive_convertTransformation r t) fun _ => .bind ih fun _ => .pure _

/-! ## The beginning of a mapping -/

/-- What a mapping begins with, notes apart, is told by the mapping alone. -/
def begun (m : Mapping) (s : State) : State :=
  (m.sources.flatMap fun e => e.columns.map (·.name)).foldl noteColumn
    { s with mapping := some m, feeds := feedsOf m.connectors, casing := [] }

theorem foldl_noteColumn_behind (names : List String) (s : State) (ws es : List String) :
    names.foldl noteColumn (s.behind ws es) = (names.foldl noteColumn s).behind ws es := by
  induction names generalizing s with
  | nil => rfl
  | cons name names ih =>
    have hnote : noteColumn (s.behind ws es) name = (noteColumn s name).behind ws es := by
      simp [noteColumn, State.behind]
    rw [List.foldl_cons, List.foldl_cons, hnote, ih]

theorem begun_eq (m : Mapping) (s : State) : begun m s = (begun m .start).behind s.warnings s.errors := by
  rw [begun, begun, ← foldl_noteColumn_behind]
  simp [State.behind, State.start]

/-- Sources, steps and sinks. -/
abbrev Parts := List Value × List Value × List Value

def convertParts (m : Mapping) : Converting Parts := do
  let sources ← convertEndpoints (convertSource r) m.sources
  let steps ← convertTransformations r m.transformations
  let sinks ← convertEndpoints (convertTarget r) m.targets
  return (sources, steps, sinks)

theorem additive_convertParts (m) : Additive (convertParts r m) :=
  .bind (composed_convertEndpoints _ _).additive fun _ => .bind (additive_convertTransformations r _) fun _ =>
    .bind (composed_convertEndpoints _ _).additive fun _ => .pure _

/-- The structure of a mapping with the notes of a state. -/
def planOf (m : Mapping) (p : Parts) (s : State) : Value :=
  .object
    [("name", .text m.name), ("description", .text (describe m)), ("sources", .list p.1),
     ("transformations", .list p.2.1), ("sinks", .list p.2.2), ("warnings", .texts s.warnings),
     ("errors", .texts s.errors)]

theorem outcome_convertMapping (m) (s : State) :
    outcome (convertMapping r m) s = ((outcome (convertParts r m) (begun m s)).1.map
      fun p => planOf m p (outcome (convertParts r m) (begun m s)).2, (outcome (convertParts r m) (begun m s)).2) := by
  have hparts : outcome (convertMapping r m) s =
      outcome (convertParts r m >>= fun p => get >>= fun u => pure (planOf m p u)) (begun m s) := by
    simp only [convertParts, bind_assoc, pure_bind]
    rfl
  rw [hparts, outcome_bind]
  rcases outcome (convertParts r m) (begun m s) with ⟨e | p, u⟩ <;> rfl

theorem runs_convertMapping {r : Rules} {plan : Value} (h : Runs (convertMapping r m) s plan u) :
    ∃ p, Runs (convertParts r m) (begun m s) p u ∧ plan = planOf m p u := by
  unfold Runs at h ⊢
  rw [outcome_convertMapping] at h
  generalize outcome (convertParts r m) (begun m s) = o at h ⊢
  obtain ⟨e | p, v⟩ := o
  · cases h
  · cases h
    exact ⟨p, rfl, rfl⟩

/-! ## Histories -/

/-- What can be done with a converter. -/
inductive Operation where
  | mapping (m : Mapping)
  | transformation (t : Transformation)
  | source (e : Endpoint)
  | target (e : Endpoint)
  | expression (v : Value)
  | feeds (cs : List Connector)
  | casing (sources : List Endpoint)

/-- The state after an operation, whether it answered or stopped with a fault. -/
def Operation.after (s : State) : Operation → State
  | mapping m => (outcome (convertMapping r m) s).2
  | transformation t => (outcome (convertTransformation r t) s).2
  | source e => (outcome (convertSource r e) s).2
  | target e => (outcome (convertTarget r e) s).2
  | expression v => (outcome (convertExpression r v) s).2
  | feeds cs => (outcome (setFeeds cs) s).2
  | casing sources => (outcome (setCasing sources) s).2

/-- The state of a converter after all it was asked to do. -/
def history (ops : List Operation) : State := ops.foldl (Operation.after r) .start

/-- The warnings or errors that a structure lists. -/
def listed (key : String) (plan : Value) : List String := Value.textItems (plan.memberList key)

/-- What a structure says of its mapping. -/
def contentKeys : List String := ["name", "description", "sources", "transformations", "sinks"]

theorem textItems_texts (ts) : Value.textItems (ts.map .text) = ts := by
  induction ts with
  | nil => rfl
  | cons t ts ih => simpa [Value.textItems] using ih

theorem listed_planOf (m) (p : Parts) (s : State) :
    listed "warnings" (planOf m p s) = s.warnings ∧ listed "errors" (planOf m p s) = s.errors :=
  ⟨textItems_texts s.warnings, textItems_texts s.errors⟩

theorem member_planOf (m) (p : Parts) (s t : State) :
    ∀ key ∈ contentKeys, (planOf m p s).member key = (planOf m p t).member key := by
  intro key hkey
  simp only [contentKeys, List.mem_cons, List.not_mem_nil, or_false] at hkey
  rcases hkey with rfl | rfl | rfl | rfl | rfl <;> rfl

theorem outcome_convertMapping_start (m) (s : State) :
    outcome (convertMapping r m) s = ((outcome (convertParts r m) (begun m .start)).1.map fun p =>
        planOf m p ((outcome (convertParts r m) (begun m .start)).2.behind s.warnings s.errors),
      (outcome (convertParts r m) (begun m .start)).2.behind s.warnings s.errors) := by
  rw [outcome_convertMapping, begun_eq, additive_convertParts r m]

/-- A run that succeeds is one of a fresh converter with the notes made before in front. -/
theorem convertMapping_fresh {r : Rules} {plan : Value} (h : Runs (convertMapping r m) s plan u) :
    ∃ p v, Runs (convertParts r m) (begun m .start) p v ∧ Runs (convertMapping r m) .start (planOf m p v) v ∧
      plan = planOf m p (v.behind s.warnings s.errors) := by
  unfold Runs at h ⊢
  rw [outcome_convertMapping_start] at h
  simp only [outcome_convertMapping r m .start]
  generalize outcome (convertParts r m) (begun m .start) = o at h ⊢
  obtain ⟨e | p, v⟩ := o
  · cases h
  · cases h
    exact ⟨p, v, rfl, rfl, rfl⟩

/-- Whatever was done with a converter before, and wherever it stopped with a fault, a mapping becomes what a
    fresh converter makes of it, and the notes of the two lie behind those made before. -/
theorem history_leaves_no_trace (r : Rules) (ops : List Operation) (m : Mapping) :
    (∀ fault, (outcome (convertMapping r m) (history r ops)).1 = .error fault ↔
      (outcome (convertMapping r m) .start).1 = .error fault) ∧
    ∀ plan u, Runs (convertMapping r m) (history r ops) plan u →
      ∃ fresh v, Runs (convertMapping r m) .start fresh v ∧
        (∀ key ∈ contentKeys, plan.member key = fresh.member key) ∧
        listed "warnings" plan = (history r ops).warnings ++ listed "warnings" fresh ∧
        listed "errors" plan = (history r ops).errors ++ listed "errors" fresh := by
  refine ⟨fun fault => ?_, fun plan u hrun => ?_⟩
  · rw [outcome_convertMapping_start, outcome_convertMapping_start r m .start]
    cases (outcome (convertParts r m) (begun m .start)).1 <;> simp [Except.map]
  · obtain ⟨p, v, -, hfresh, rfl⟩ := convertMapping_fresh hrun
    refine ⟨_, v, hfresh, member_planOf m p _ _, ?_, ?_⟩
    · rw [(listed_planOf m p _).1, (listed_planOf m p _).1, State.behind]
    · rw [(listed_planOf m p _).2, (listed_planOf m p _).2, State.behind]

/-- A join of which an earlier mapping knew the inputs, and a filter over a column that it wrote otherwise. -/
def joinedLater : Mapping :=
  ⟨"M_LATER", none, "1", [⟨"S", "Oracle", none, [⟨"ID", "number", 10, 0, none, none⟩], []⟩], [],
    [⟨"JNR", "Joiner", none, [], []⟩, ⟨"FLT", "Filter", none, [], [("filter_condition", .text "Id")]⟩],
    [⟨"S", "FLT", [], []⟩], []⟩

/-- Feeds and casings of other mappings, a warning, an error and two faults. -/
def earlierUses : List Operation :=
  [.expression (.int 5), .transformation ⟨"UPD", "Update Strategy", none, [], []⟩,
    .mapping { joinedLater with transformations := [⟨"F", "Filter", none, [], [("filter_condition", .int 5)]⟩] },
    .mapping joinedLater, .feeds [⟨"A", "JNR", [], []⟩, ⟨"B", "JNR", [], []⟩],
    .casing [⟨"S", "Oracle", none, [⟨"iD", "number", 10, 0, none, none⟩], []⟩]]

theorem earlierUses_leave_no_trace :
    (history .standard earlierUses).warnings = ["Transformación 'Update Strategy' no soportada: UPD"] ∧
    (history .standard earlierUses).feeds = [("JNR", ["A", "B"])] ∧
    (history .standard earlierUses).casing = [("id", "iD")] ∧
    ∃ plan u fresh v, Runs (convertMapping .standard joinedLater) (history .standard earlierUses) plan u ∧
      Runs (convertMapping .standard joinedLater) .start fresh v ∧
      (∀ key ∈ contentKeys, plan.member key = fresh.member key) ∧
      listed "warnings" plan = (history .standard earlierUses).warnings ++ listed "warnings" fresh ∧
      listed "errors" plan = (history .standard earlierUses).errors ++ listed "errors" fresh := by
  refine ⟨by decide +kernel, by decide +kernel, by decide +kernel, ?_⟩
  obtain ⟨plan, hplan⟩ : ∃ plan, Runs (convertMapping .standard joinedLater) (history .standard earlierUses) plan _ :=
    Runs.of_isOk (by decide +kernel)
  obtain ⟨fresh, v, hfresh, hnotes⟩ := (history_leaves_no_trace .standard earlierUses joinedLater).2 plan _ hplan
  exact ⟨plan, _, fresh, v, hplan, hfresh, hnotes⟩

end MappingFlow.Conversion
