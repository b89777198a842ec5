/-
  MappingFlow.Proofs.Conversion.Steps — what the conversion of a mapping makes of each
  transformation.

  Converting a step may note warnings and learn casings, but it never touches the feeds
  or the mapping (`Begun`). So the inputs a step is given are those its connectors say
  (`StepOf`), whatever was converted before it, and a converted mapping lists one step
  for each transformation that the rules know (`convertMapping_plan`).
-/

import MappingFlow.Proofs.Conversion.Notes
import MappingFlow.Proofs.Conversion.Streams

namespace MappingFlow

open List

variable {v : Value} {fs gs : Fields} {key : String}

namespace Conversion

/-- The conversion of `m` has begun. -/
def Begun (m : Mapping) (s : State) : Prop := s.feeds = feedsOf m.connectors ∧ s.mapping = some m

def isLookup (t : Transformation) : Bool := t.type == "Lookup" || t.type == "Lookup Procedure"

def isJoiner (t : Transformation) : Bool := t.type == "Joiner"

def isAggregator (t : Transformation) : Bool := t.type == "Aggregator"

/-- A transformation states its aggregates, or else they are the columns that mention one. -/
def hasAggregates (t : Transformation) : Bool :=
  (property t "aggregate_expressions" (.list [])).isPresent
    || t.columns.any fun c => c.expression.any fun e => e != "" && mentionsAggregate e

/-- The members of a step that say what it is and what it reads. -/
structure StepOf (m : Mapping) (t : Transformation) (type : Value) (fs : Fields) : Prop where
  name : fs.get? "name" = some (.text t.name)
  type : fs.get? "type" = some type
  main : fs.get? "mainInput" = if isLookup t then some (.ofOption (m.lookupInput t.name)) else none
  left : fs.get? "leftInput" = if isJoiner t then some (.ofOption (m.joinInputs t.name).1) else none
  right : fs.get? "rightInput" = if isJoiner t then some (.ofOption (m.joinInputs t.name).2) else none
  table : fs.get? "lookupDataset" = if isLookup t then some (property t "lookup_table" .null) else none
  /-- A file is called by the name of its format. -/
  file : fs.get? "sourceType" = none ∨ fs.get? "sourceType" = some (.text "DelimitedText")
  aggregates : if isAggregator t then
      ∃ items, fs.get? "aggregates" = some (.list items) ∧ items.isEmpty = !hasAggregates t
    else fs.get? "aggregates" = none

/-- The answer is the step of `t`. -/
def IsStepOf (m : Mapping) (t : Transformation) (type v : Value) : Prop := ∃ fs, v = .object fs ∧ StepOf m t type fs

variable {type : Value}

/-! ## What every part keeps -/

theorem warn_begun (w) : Preserves (Begun m) (warn w) := .modify fun _ h => h

theorem reportError_begun (e) : Preserves (Begun m) (reportError e) := .modify fun _ h => h

theorem stableLearning_begun : StableLearning (Begun m) where
  remark _ _ _ h := h
  error _ _ h := h
  learn _ _ h := h

theorem isEmpty_aggregatesOf (vs) : Answers (aggregatesOf r vs) (·.isEmpty = vs.isEmpty) := by
  cases vs with
  | nil => exact .pure rfl
  | cons v vs => exact .after fun _ => .after fun _ => .pure rfl

theorem isEmpty_aggregateColumns (cs) : Answers (aggregateColumns r cs)
    (·.isEmpty = !(cs.any fun c => c.expression.any fun e => e != "" && mentionsAggregate e)) := by
  induction cs with
  | nil => exact .pure rfl
  | cons c cs ih =>
    unfold aggregateColumns
    cases hc : c.expression with
    | none => simpa [hc] using ih
    | some e =>
      refine .ite (fun he => .after fun _ => .after fun _ => .pure ?_) fun he => ?_
      · simp only [isEmpty_cons, any_cons, hc, Option.any_some, he, Bool.true_or, Bool.not_true]
      · have : (e != "" && mentionsAggregate e) = false := Bool.eq_false_iff.mpr he
        simpa only [any_cons, hc, Option.any_some, this, Bool.false_or] using ih

theorem items_isEmpty (h : v.items = .ok xs) : xs.isEmpty = !v.isPresent := by
  cases v with
  | list | object => cases h; simp [Value.isPresent]
  | text s =>
    cases h
    simp only [Value.isPresent, isEmpty_map, bne, Bool.not_not]
    rw [Bool.eq_iff_iff, List.isEmpty_iff, beq_iff_eq, String.toList_eq_nil_iff]
  | null | bool | int | real => cases h

/-! ## Members of a step -/

/-- The keys that say what a step is and what it reads. -/
def reservedKeys : List String :=
  ["name", "type", "mainInput", "leftInput", "rightInput", "lookupDataset", "sourceType", "aggregates"]

def isPlain (fs : Fields) : Bool := fs.keys.all fun key => !reservedKeys.contains key

theorem member_of_get? (h : fs.get? key = some v) : (Value.object fs).member key = v := by
  simp [Value.member, Fields.getD, h]

theorem member_of_field (h : v.field key = .ok w) : v.member key = w := by
  cases v with
  | object fs =>
    simp only [Value.field] at h
    split at h
    · rename_i w' hw
      cases h
      exact member_of_get? hw
    · cases h
  | _ => cases h

theorem get?_append (h : key ∉ gs.keys) : (fs ++ gs : Fields).get? key = fs.get? key := by
  have hnone : gs.lookup key = none := by
    refine lookup_eq_none_iff.mpr fun f hf => bne_iff_ne.mpr fun he => h ?_
    exact mem_map.mpr ⟨f, hf, he.symm⟩
  unfold Fields.get?
  rw [lookup_append, hnone, Option.or_none]

theorem get?_append_plain (h : isPlain gs) (hk : key ∈ reservedKeys) : (fs ++ gs : Fields).get? key = fs.get? key := by
  refine get?_append fun hmem => ?_
  have := all_eq_true.mp h key hmem
  simp [hk] at this

theorem StepOf.of_same (h : StepOf m t type fs) (same : ∀ key ∈ reservedKeys, key ≠ "sourceType" → gs.get? key = fs.get? key)
    (file : gs.get? "sourceType" = none ∨ gs.get? "sourceType" = some (.text "DelimitedText")) :
    StepOf m t type gs where
  name := by rw [same _ (by decide) (by decide), h.name]
  type := by rw [same _ (by decide) (by decide), h.type]
  main := by rw [same _ (by decide) (by decide), h.main]
  left := by rw [same _ (by decide) (by decide), h.left]
  right := by rw [same _ (by decide) (by decide), h.right]
  table := by rw [same _ (by decide) (by decide), h.table]
  file := file
  aggregates := by rw [same _ (by decide) (by decide)]; exact h.aggregates

theorem StepOf.append (h : StepOf m t type fs) (hg : isPlain gs) : StepOf m t type (fs ++ gs) :=
  h.of_same (fun _ hk _ => get?_append_plain hg hk) (by rw [get?_append_plain hg (by decide)]; exact h.file)

/-- The members of a lookup that reads a file. -/
def fileFields (v : Value) : Fields := [("sourceType", .text "DelimitedText"), ("flatFileConfig", v)]

theorem StepOf.append_file (h : StepOf m t type fs) (hfs : fs.get? "sourceType" = none) (v : Value) :
    StepOf m t type (fs ++ fileFields v) := by
  refine h.of_same (fun key hk hne => get?_append fun hmem => ?_) (.inr ?_)
  · simp only [fileFields, Fields.keys, map_cons, map_nil, mem_cons, not_mem_nil, or_false, hne, false_or] at hmem
    subst hmem
    revert hk
    decide
  · unfold Fields.get? at hfs ⊢
    rw [lookup_append, hfs]
    rfl

/-- A step that reads only what was written before it. -/
theorem stepOf_head (hl : isLookup t = false) (hj : isJoiner t = false) (ha : isAggregator t = false) :
    StepOf m t type (stepHead t type) where
  name := rfl
  type := rfl
  main := by rw [hl]; rfl
  left := by rw [hj]; rfl
  right := by rw [hj]; rfl
  table := by rw [hl]; rfl
  file := .inl rfl
  aggregates := by rw [ha]; rfl

theorem stepOf_head_of_type {kind : String} (h : t.type = kind)
    (hkind : kind ∉ ["Lookup", "Lookup Procedure", "Joiner", "Aggregator"]) : StepOf m t type (stepHead t type) := by
  subst h
  simp only [mem_cons, not_mem_nil, or_false, not_or] at hkind
  exact stepOf_head (by simp [isLookup, hkind]) (by simp [isJoiner, hkind]) (by simp [isAggregator, hkind])

/-! ## One kind of step after another -/

/-- A step comes with a warning or without. -/
theorem warned_answers {c : Prop} [Decidable c] {Q : Value → Prop} (h : Q (.object fs)) (h' : Q (.object gs)) :
    Answers (if c then do warn w; return .object fs else return .object gs : Converting Value) Q :=
  .ite (fun _ => .after fun _ => .pure h) fun _ => .pure h'

theorem warnedWhen_answers {Q : Value → Prop} (e : Except Fault Bool) (h : Q (.object fs)) (h' : Q (.object gs)) :
    Answers (do if ← e then warn w return .object fs else return .object gs : Converting Value) Q :=
  .after fun _ => warned_answers h h'

theorem warned_step {c : Prop} [Decidable c] (h : StepOf m t type fs) (h' : StepOf m t type gs) :
    Answers (if c then do warn w; return .object fs else return .object gs : Converting Value) (IsStepOf m t type) :=
  warned_answers ⟨_, rfl, h⟩ ⟨_, rfl, h'⟩

theorem strategyCondition_plain (strategy expression : Value) :
    Answers (strategyCondition r strategy expression) (isPlain · = true) :=
  .ite (fun _ => .pure rfl) fun _ => .after fun _ => .ite (fun _ => .pure rfl) fun _ => .after fun _ => .pure rfl

theorem changeStep_step (h : t.type = "Update Strategy") : Answers (changeStep r t type) (IsStepOf m t type) := by
  have head : StepOf m t type (stepHead t type) := stepOf_head_of_type h (by decide)
  refine .after fun action => .bind (strategyCondition_plain _ _) fun fs hfs => ?_
  exact warned_step (.append (.append head rfl) hfs) (.append (.append head rfl) hfs)

theorem aggregateStep_step (h : t.type = "Aggregator") : Answers (aggregateStep r t type) (IsStepOf m t type) := by
  have step : ∀ (groups : Value) (items : List Value), items.isEmpty = (!hasAggregates t) →
      StepOf m t type (stepHead t type ++ [("groupBy", groups), ("aggregates", .list items)]) := by
    intro groups items hitems
    have hl : isLookup t = false := by simp [isLookup, h]
    have hj : isJoiner t = false := by simp [isJoiner, h]
    have ha : isAggregator t = true := by simp [isAggregator, h]
    exact ⟨rfl, rfl, by rw [hl]; rfl, by rw [hj]; rfl, by rw [hj]; rfl, by rw [hl]; rfl, .inl rfl,
      by rw [ha]; exact ⟨items, rfl, hitems⟩⟩
  refine .bind (.lift fun stated hstated => items_isEmpty hstated) fun stated hstated => ?_
  refine .bind (isEmpty_aggregatesOf stated) fun ws hws => ?_
  rw [hstated] at hws
  -- Columns are looked at only when no aggregate is stated.
  refine .ite (fun he => .bind (isEmpty_aggregateColumns t.columns) fun items hitems => ?_) fun he => ?_
  · have found : items.isEmpty = (!hasAggregates t) := by
      rw [hws, Bool.not_eq_true'] at he
      rw [hitems, hasAggregates, he, Bool.false_or]
    exact warned_step (.append (step _ _ found) rfl) (step _ _ found)
  · have found : ws.isEmpty = (!hasAggregates t) := by
      rw [hws, Bool.not_eq_true', Bool.not_eq_false] at he
      rw [hws, hasAggregates, he, Bool.true_or]
    exact warned_step (.append (step _ _ found) rfl) (step _ _ found)

/-! ## Joins and lookups -/

theorem resolveFeed_begun (name) :
    Ensures (Begun m) (resolveFeed name) fun i s => i = m.stream name ∧ Begun m s := by
  refine .bind_get fun s hs => ?_
  rw [hs.1, hs.2]
  exact .pure fun _ hs' => ⟨rfl, hs'⟩

theorem feedsInto_begun (hs : Begun m s) (name) : s.feedsInto name = m.feeders name := by
  rw [State.feedsInto, hs.1, lookup_feedsOf]

theorem joinInputs_begun (name) :
    Ensures (Begun m) (joinInputs name) fun p s => p = m.joinInputs name ∧ Begun m s := by
  refine .bind_get fun s hs => ?_
  simp only [Mapping.joinInputs, feedsInto_begun hs]
  rcases distinct (m.feeders name) with _ | ⟨left, _ | ⟨right, rest⟩⟩
  · exact .bind (reportError_begun _) fun _ => .pure fun _ hs => ⟨rfl, hs⟩
  · refine .bind (resolveFeed_begun _) fun l => .of_and fun hl => ?_
    subst hl
    exact .bind (reportError_begun _) fun _ => .pure fun _ hs => ⟨rfl, hs⟩
  · refine .bind (resolveFeed_begun _) fun l => .of_and fun hl => ?_
    refine .bind (resolveFeed_begun _) fun r => .of_and fun hr => ?_
    subst hl hr
    refine .ite (fun hsame => ?_) fun hsame => ?_
    · exact .bind (reportError_begun _) fun _ => .pure fun _ hs => ⟨(if_pos hsame).symm, hs⟩
    · exact .pure fun _ hs => ⟨(if_neg hsame).symm, hs⟩

theorem mainInput_begun (name) :
    Ensures (Begun m) (mainInput name) fun i s => i = m.lookupInput name ∧ Begun m s := by
  refine .bind_get fun s hs => ?_
  simp only [Mapping.lookupInput, feedsInto_begun hs]
  rcases m.feeders name with _ | ⟨first, rest⟩
  · exact .pure fun _ hs => ⟨rfl, hs⟩
  · refine .bind (resolveFeed_begun _) fun l => .of_and fun hl => ?_
    subst hl
    exact .pure fun _ hs => ⟨rfl, hs⟩

theorem joinStep_step (h : t.type = "Joiner") :
    Ensures (Begun m) (joinStep t type) fun v _ => IsStepOf m t type v := by
  have step : ∀ kind conditions master detail,
      StepOf m t type (stepHead t type ++
        [("joinType", kind), ("joinConditions", conditions), ("masterFields", master), ("detailFields", detail),
         ("leftInput", .ofOption (m.joinInputs t.name).1), ("rightInput", .ofOption (m.joinInputs t.name).2)]) := by
    intro kind conditions master detail
    have hl : isLookup t = false := by simp [isLookup, h]
    have hj : isJoiner t = true := by simp [isJoiner, h]
    have ha : isAggregator t = false := by simp [isAggregator, h]
    exact ⟨rfl, rfl, by rw [hl]; rfl, by rw [hj]; rfl, by rw [hj]; rfl, by rw [hl]; rfl, .inl rfl, by rw [ha]; rfl⟩
  refine .bind Preserves.lift fun _ => .bind Preserves.lift fun _ => ?_
  refine .bind (joinInputs_begun _) fun p => .of_and fun hp => Answers.ensures ?_
  subst hp
  -- The last test appends a member or leaves the step as it is.
  have plain : isPlain [("sorted_input", .bool true)] = true := rfl
  refine .ite (fun _ => .after fun _ => ?_) fun _ => ?_
  · exact warnedWhen_answers _ ⟨_, rfl, ((step ..).append plain).append rfl⟩ ⟨_, rfl, (step ..).append plain⟩
  · exact warnedWhen_answers _ ⟨_, rfl, (step ..).append rfl⟩ ⟨_, rfl, step ..⟩

theorem overrideMembers_plain : Answers (overrideMembers t) (isPlain · = true) :=
  .ite (fun _ => .after fun _ => .pure rfl) fun _ => .pure rfl

theorem fileMembers_fields : Answers (fileMembers t) fun fs => fs = [] ∨ ∃ v, fs = fileFields v :=
  .ite (fun _ => .after fun _ => .pure (.inr ⟨_, rfl⟩)) fun _ => .pure (.inl rfl)

theorem lookupStep_step (h : isLookup t) :
    Ensures (Begun m) (lookupStep t type) fun v _ => IsStepOf m t type v := by
  have type_eq : t.type = "Lookup" ∨ t.type = "Lookup Procedure" := by
    simpa [isLookup] using h
  have hj : isJoiner t = false := by rcases type_eq with h | h <;> simp [isJoiner, h]
  have ha : isAggregator t = false := by rcases type_eq with h | h <;> simp [isAggregator, h]
  refine .bind Preserves.lift fun comparisons => .bind (mainInput_begun _) fun main => .of_and fun hmain => ?_
  subst hmain
  refine Answers.ensures (.after fun rows => .after fun returned => .bind overrideMembers_plain fun override hoverride => ?_)
  refine .bind fileMembers_fields fun file hfile => .after fun _ => .pure ⟨_, rfl, ?_⟩
  have own : StepOf m t type (stepHead t type ++
      [("lookupDataset", property t "lookup_table" .null), ("mainInput", .ofOption (m.lookupInput t.name)),
       ("lookupConditions", comparisons), ("returnFields", property t "return_fields" (.list [])),
       ("columnDisambiguation", .object (qualifiedNames (property t "lookup_table" .null) (m.lookupInput t.name)
          returned (t.columns.map (·.name)))),
       ("cacheMode", .text (if (property t "cache_enabled" (.bool true)).isPresent then "static" else "none"))]) :=
    ⟨rfl, rfl, by rw [h]; rfl, by rw [hj]; rfl, by rw [hj]; rfl, by rw [h]; rfl, .inl rfl, by rw [ha]; rfl⟩
  rcases hfile with rfl | ⟨v, rfl⟩
  · rw [append_nil]
    exact own.append hoverride
  · exact (own.append hoverride).append_file (by rw [get?_append_plain hoverride (by decide)]; rfl) v

/-! ## Mappings -/

theorem convertStep_step : Ensures (Begun m) (convertStep r t type) fun v _ => IsStepOf m t type v := by
  have head : ∀ {kind}, t.type = kind → kind ∉ ["Lookup", "Lookup Procedure", "Joiner", "Aggregator"] →
      ∀ {gs}, isPlain gs → StepOf m t type (stepHead t type ++ gs) := fun h hkind _ =>
    (stepOf_head_of_type h hkind).append
  unfold convertStep
  split
  · exact Answers.ensures (.after fun _ => .pure ⟨_, rfl, head ‹_› (by decide) rfl⟩)
  · exact Answers.ensures (.after fun _ => .pure ⟨_, rfl, head ‹_› (by decide) rfl⟩)
  · exact (aggregateStep_step ‹_›).ensures
  · exact joinStep_step ‹_›
  · refine Answers.ensures (.after fun _ => .after fun _ => ?_)
    exact warned_step (head ‹_› (by decide) rfl) (head ‹_› (by decide) rfl)
  · refine Answers.ensures (.after fun _ => .after fun _ => ?_)
    exact warned_step (head ‹_› (by decide) rfl) (head ‹_› (by decide) rfl)
  · exact lookupStep_step (by simp [isLookup, ‹t.type = "Lookup"›])
  · exact lookupStep_step (by simp [isLookup, ‹t.type = "Lookup Procedure"›])
  · exact (changeStep_step ‹_›).ensures
  · rename_i ha hj _ _ hl hp _
    refine .pure fun _ _ => ⟨_, rfl, stepOf_head ?_ ?_ ?_⟩
    · simpa [isLookup] using ⟨hl, hp⟩
    · simpa [isJoiner] using hj
    · simpa [isAggregator] using ha

/-- Whatever the step is, the conversion goes on. -/
theorem convertStep_steps :
    Ensures (Begun m) (convertStep r t type) fun v s => IsStepOf m t type v ∧ Begun m s := fun s v u hs hrun =>
  ⟨convertStep_step s v u hs hrun, stableLearning_begun.composed composed_convertStep s v u hs hrun⟩

end Conversion

/-- What the rules make of a type of transformation, if they know it. -/
def Rules.kind? (r : Rules) (type : String) : Option Value :=
  match r.stepType type with
  | .ok v => if v.isPresent then some v else none
  | .error _ => none

/-- The transformations that become steps. -/
def Mapping.known (m : Mapping) (r : Rules) : List Transformation :=
  m.transformations.filter fun t => (r.kind? t.type).isSome

namespace Conversion

/-- The warning that a transformation is left out. -/
def leftOut (t : Transformation) : String := "Transformación '" ++ t.type ++ "' no soportada: " ++ t.name

/-- Transformations one after another: each becomes a step, or is left out with a warning. -/
inductive Converted (r : Rules) : List Transformation → State → List Value → State → Prop
  | nil (s : State) : Converted r [] s [] s
  | step {t : Transformation} {type v : Value} {s s' u : State} {ts : List Transformation} {vs : List Value}
    (hkind : r.kind? t.type = some type) (hstep : Runs (convertStep r t type) s v s') (hrest : Converted r ts s' vs u) :
    Converted r (t :: ts) s (v :: vs) u
  | leave {t : Transformation} {s u : State} {ts : List Transformation} {vs : List Value} (hkind : r.kind? t.type = none)
    (hrest : Converted r ts { s with warnings := s.warnings ++ [leftOut t] } vs u) : Converted r (t :: ts) s vs u

theorem converted_of_runs (h : Runs (convertTransformations r ts) s vs u) : Converted r ts s vs u := by
  induction ts generalizing s vs with
  | nil =>
    obtain ⟨rfl, rfl⟩ := Runs.pure_iff.mp h
    exact .nil _
  | cons t ts ih =>
    obtain ⟨o, s', hfirst, h⟩ := Runs.bind_iff.mp h
    obtain ⟨vs', u', hrest, h⟩ := Runs.bind_iff.mp h
    obtain ⟨rfl, rfl⟩ := Runs.pure_iff.mp h
    obtain ⟨type, htype, hfirst⟩ := Runs.bind_lift_iff.mp hfirst
    have hkind : r.kind? t.type = if type.isPresent then some type else none := by rw [Rules.kind?, htype]
    split at hfirst
    · obtain ⟨v, s'', hstep, hv⟩ := Runs.bind_iff.mp hfirst
      obtain ⟨rfl, rfl⟩ := Runs.pure_iff.mp hv
      exact .step (hkind.trans (if_pos ‹_›)) hstep (ih hrest)
    · obtain ⟨_, s'', hwarn, hv⟩ := Runs.bind_iff.mp hfirst
      obtain ⟨rfl, rfl⟩ := Runs.pure_iff.mp hv
      obtain rfl := Runs.modify_iff.mp hwarn
      exact .leave (hkind.trans (if_neg ‹_›)) (ih hrest)

/-- Transformations with the members of their steps. -/
abbrev Paired := List (Transformation × Fields)

def Paired.steps (ps : Paired) : List Value := ps.map fun p => .object p.2

/-- Every step is the one of its transformation. -/
def Paired.Match (r : Rules) (m : Mapping) (ps : Paired) : Prop :=
  ∀ p ∈ ps, ∃ type, r.kind? p.1.type = some type ∧ StepOf m p.1 type p.2

theorem Converted.paired (h : Converted r ts s vs u) (hs : Begun m s) :
    ∃ ps : Paired, vs = ps.steps ∧ ps.map (·.1) = ts.filter (fun t => (r.kind? t.type).isSome) ∧ ps.Match r m := by
  induction h with
  | nil s => exact ⟨[], rfl, rfl, forall_mem_nil _⟩
  | step hkind hstep _ ih =>
    obtain ⟨⟨fs, rfl, hfs⟩, hs'⟩ := convertStep_steps _ _ _ hs hstep
    obtain ⟨ps, rfl, hts, hps⟩ := ih hs'
    exact ⟨(_, fs) :: ps, rfl, by simp [hkind, hts], forall_mem_cons.mpr ⟨⟨_, hkind, hfs⟩, hps⟩⟩
  | leave hkind _ ih =>
    obtain ⟨ps, rfl, hts, hps⟩ := ih hs
    exact ⟨ps, rfl, by simp [hkind, hts], hps⟩

theorem convertEndpoints_named (kind) (es) : Answers (convertEndpoints (convertEndpoint r kind) es) fun vs =>
    ∃ fss : List Fields, vs = fss.map .object ∧ fss.map (·.get? "name") = es.map fun e => some (.text e.name) := by
  induction es with
  | nil => exact .pure ⟨[], rfl, rfl⟩
  | cons e es ih =>
    have one : Answers (convertEndpoint r kind e) fun v =>
        ∃ fs : Fields, v = .object fs ∧ fs.get? "name" = some (.text e.name) := .after fun _ => .pure ⟨_, rfl, rfl⟩
    refine .bind one fun v hv => .bind ih fun vs hvs => .pure ?_
    obtain ⟨fs, rfl, hfs⟩ := hv
    obtain ⟨fss, rfl, hfss⟩ := hvs
    exact ⟨fs :: fss, rfl, by rw [map_cons, map_cons, hfs, hfss]⟩

/-- What the structure of a mapping is made of. -/
structure PlanOf (r : Rules) (m : Mapping) (plan : Value) (sources : List Fields) (ps : Paired)
    (sinks : List Fields) : Prop where
  parts : ∃ fs : Fields, plan = .object fs ∧ fs.get? "sources" = some (.list (sources.map .object)) ∧
    fs.get? "transformations" = some (.list ps.steps) ∧ fs.get? "sinks" = some (.list (sinks.map .object))
  sources_named : sources.map (·.get? "name") = m.sources.map fun e => some (.text e.name)
  known : ps.map (·.1) = m.known r
  steps : ps.Match r m
  sinks_named : sinks.map (·.get? "name") = m.targets.map fun e => some (.text e.name)

theorem begun_begun (m) (s : State) : Begun m (begun m s) := stableLearning_begun.noteColumns _ ⟨rfl, rfl⟩

theorem runs_convertParts (h : Runs (convertParts r m) s p u) :
    ∃ s₁ s₂, Runs (convertEndpoints (convertSource r) m.sources) s p.1 s₁ ∧ (∀ P, Stable P → P s → P s₁) ∧
      Converted r m.transformations s₁ p.2.1 s₂ ∧ Runs (convertEndpoints (convertTarget r) m.targets) s₂ p.2.2 u := by
  obtain ⟨_, s₁, hsources, h⟩ := Runs.bind_iff.mp h
  obtain ⟨_, s₂, hsteps, h⟩ := Runs.bind_iff.mp h
  obtain ⟨_, s₃, hsinks, h⟩ := Runs.bind_iff.mp h
  obtain ⟨rfl, rfl⟩ := Runs.pure_iff.mp h
  refine ⟨s₁, s₂, hsources, fun P hP hs => ?_, converted_of_runs hsteps, hsinks⟩
  exact hP.composed (composed_convertEndpoints _ _) _ _ _ hs hsources

theorem convertMapping_plan (h : Runs (convertMapping r m) s plan u) :
    ∃ sources ps sinks, PlanOf r m plan sources ps sinks := by
  obtain ⟨⟨_, _, _⟩, hparts, rfl⟩ := runs_convertMapping h
  obtain ⟨s₁, s₂, hsources, hkeep, hsteps, hsinks⟩ := runs_convertParts hparts
  obtain ⟨sources, rfl, hnamed⟩ := convertEndpoints_named _ _ _ _ _ hsources
  obtain ⟨ps, rfl, hknown, hps⟩ := hsteps.paired (hkeep _ stableLearning_begun.toStable (begun_begun m s))
  obtain ⟨sinks, rfl, hends⟩ := convertEndpoints_named _ _ _ _ _ hsinks
  exact ⟨sources, ps, sinks, ⟨⟨_, rfl, rfl, rfl, rfl⟩, hnamed, hknown, hps, hends⟩⟩

end Conversion

end MappingFlow
