/-
  MappingFlow.Proofs.Conversion.Uses — columns that one step defines and later ones use.

  The expressions of a transformation are converted in an order, each where the columns of
  the sources and those defined so far are known (`Transformation.uses`). A conversion hands
  every one of them over in the casing known there (`Written`), while the step that defines
  a column gives its name as it is. So the name is still used under the same spelling if
  neither the casing, nor the conversion, nor the renaming that stands in for it takes it
  away (`Use.Spares`): a name that begins with a marker of direction is taken away.
-/

import MappingFlow.Proofs.Conversion.Joins
import MappingFlow.Proofs.Conversion.Spelling
import MappingFlow.Proofs.Expression.Names

namespace MappingFlow

open Text Expression
open List

/-- The expression of a column, if it has one. -/
def Column.formula? (c : Column) : Option String := c.expression.filter (· ≠ "")

namespace Conversion

/-! ## Definitions and uses -/

/-- An expression, and the columns whose casing is known where it is converted. -/
structure Use where
  expression : Value
  known : List String

/-- The names of the columns that an expression defines. -/
def derivedNames (cs : List Column) : List String := (cs.filter (·.formula?.isSome)).map (·.name)

/-- Each expression knows the columns before it. -/
def derivedUses : List String → List Column → List Use
  | _, [] => []
  | known, c :: cs =>
    match c.formula? with
    | none => derivedUses known cs
    | some e => ⟨.text e, known⟩ :: derivedUses (known ++ [c.name]) cs

/-- The aggregates that are stated, or else the columns that mention one. -/
def aggregated (t : Transformation) : List Value :=
  match (property t "aggregate_expressions" (.list [])).items.toOption.getD [] with
  | [] => t.columns.filterMap fun c => (c.formula?.filter mentionsAggregate).map .text
  | stated => stated.map (·.member "expression")

def isRouted (g : Value) : Bool := (g.member "type").isText "output" && (g.member "expression").isPresent

/-- The conditions of the output groups. -/
def routed (t : Transformation) : List Value :=
  (((property t "groups" (.list [])).items.toOption.getD []).filter isRouted).map (·.member "expression")

end Conversion

namespace Transformation

open Conversion

def defined (t : Transformation) : List String := if t.type = "Expression" then derivedNames t.columns else []

/-- A router takes its conditions as they are. -/
def uses (known : List String) (t : Transformation) : List Use :=
  match t.type with
  | "Expression" => derivedUses known t.columns
  | "Filter" => [⟨property t "filter_condition" (.text "true"), known⟩]
  | "Aggregator" => (aggregated t).map (⟨·, known⟩)
  | "Router" => (routed t).map (⟨·, []⟩)
  | _ => []

/-- The expressions of a step. -/
def written (t : Transformation) (step : Value) : List Value :=
  match t.type with
  | "Expression" => (step.memberList "columns").map (·.member "expression")
  | "Filter" => [step.member "condition"]
  | "Aggregator" => (step.memberList "aggregates").map (·.member "expression")
  | "Router" => (step.memberList "conditions").map (·.member "expression")
  | _ => []

end Transformation

namespace Conversion

variable {r : Rules} {m : Mapping} {t : Transformation} {type v : Value} {known : List String}

/-- The expression in the casing that is known. -/
def Use.respelled (u : Use) (e : String) : String := recased (casingOf u.known) e

/-- What is written is the conversion of the use. -/
def Translated (r : Rules) (u : Use) (out : Value) : Prop :=
  ∀ e, u.expression = .text e → ∃ o, out = .text o ∧ r.convert (.text (u.respelled e)) = .ok o

/-- A step names the columns it defines and has the conversions of its uses. -/
structure StepWritten (r : Rules) (known : List String) (t : Transformation) (step : Value) : Prop where
  names : t.type = "Expression" → (step.memberList "columns").map (·.member "name") = (derivedNames t.columns).map .text
  uses : Forall₂ (Translated r) (t.uses known) (t.written step)

/-! ## One step -/

def Knows (known : List String) (s : State) : Prop := s.casing = casingOf known

theorem convertCondition_translated :
    Ensures (Knows known) (convertCondition r v) fun out s => Translated r ⟨v, known⟩ out ∧ Knows known s := by
  unfold convertCondition normalizeCasing
  rw [bind_assoc]
  refine .bind_get fun s hs => .bind_lift fun w hw => .bind_lift fun o ho => .pure fun _ hs' => ⟨?_, hs'⟩
  rintro e rfl
  rw [hs, normalize_text (learned_casingOf known), Except.ok.injEq] at hw
  exact ⟨o, rfl, hw ▸ ho⟩

theorem derivedColumn_eq (c) : derivedColumn r c = match c.formula? with
    | none => pure none
    | some e => do
      let v ← convertCondition r (.text e)
      modify fun s => { s with casing := learnCasing c.name s.casing }
      return some (.object [("name", .text c.name), ("expression", v)]) := by
  unfold derivedColumn Column.formula?
  cases c.expression with
  | none => rfl
  | some e => by_cases he : e = "" <;> simp [he, Option.filter]

theorem derivedColumn_written (hc : c.formula? = some e) : Ensures (Knows known) (derivedColumn r c) fun o s =>
      (∃ v, o = some (.object [("name", .text c.name), ("expression", v)]) ∧ Translated r ⟨.text e, known⟩ v) ∧
        Knows (known ++ [c.name]) s := by
  simp only [derivedColumn_eq, hc]
  refine .bind convertCondition_translated fun v => .of_and fun hv => ?_
  refine .bind (Q := fun _ => Knows (known ++ [c.name])) (.modify fun s hs => ?_) fun _ => ?_
  · rw [Knows, casingOf_concat, ← hs]
  · exact .pure fun _ hs => ⟨⟨v, rfl, hv⟩, hs⟩

theorem derivedColumns_written (cs) : ∀ known, Ensures (Knows known) (derivedColumns r cs) fun vs s =>
    (vs.map (·.member "name") = (derivedNames cs).map .text ∧
      Forall₂ (Translated r) (derivedUses known cs) (vs.map (·.member "expression"))) ∧
    Knows (known ++ derivedNames cs) s := by
  induction cs with
  | nil => exact fun known => .pure fun s hs => ⟨⟨rfl, .nil⟩, by simpa [derivedNames] using hs⟩
  | cons c cs ih =>
    intro known
    cases hc : c.formula? with
    | none =>
      have hnames : derivedNames (c :: cs) = derivedNames cs := by simp [derivedNames, hc]
      have huses : derivedUses known (c :: cs) = derivedUses known cs := by simp [derivedUses, hc]
      have hnone : derivedColumn r c = pure none := by simp [derivedColumn_eq, hc]
      rw [hnames, huses, derivedColumns, hnone, pure_bind]
      exact .bind (ih known) fun _ => .pure fun _ => id
    | some e =>
      have hnames : derivedNames (c :: cs) = c.name :: derivedNames cs := by simp [derivedNames, hc]
      have huses : derivedUses known (c :: cs) = ⟨.text e, known⟩ :: derivedUses (known ++ [c.name]) cs := by
        simp [derivedUses, hc]
      rw [hnames, huses]
      refine .bind (derivedColumn_written hc) fun o => .of_and fun ho => .bind (ih _) fun vs => .pure fun s hs => ?_
      obtain ⟨v, rfl, hv⟩ := ho
      obtain ⟨⟨hvs, huses⟩, hs⟩ := hs
      refine ⟨⟨?_, .cons hv huses⟩, by rwa [append_assoc] at hs⟩
      rw [map_cons, ← hvs]
      rfl

theorem aggregateColumns_written (cs) : Ensures (Knows known) (aggregateColumns r cs) fun vs s =>
    Forall₂ (Translated r)
      ((cs.filterMap fun c => (c.formula?.filter mentionsAggregate).map Value.text).map (⟨·, known⟩))
      (vs.map (·.member "expression")) ∧ Knows known s := by
  induction cs with
  | nil => exact .pure fun _ hs => ⟨.nil, hs⟩
  | cons c cs ih =>
    unfold aggregateColumns
    split
    · rename_i e he
      have hformula : c.formula?.filter mentionsAggregate = if e != "" && mentionsAggregate e then some e else none := by
        by_cases hempty : e = "" <;> simp [Column.formula?, he, Option.filter, hempty]
      split
      · rename_i hmentions
        rw [filterMap_cons, hformula, if_pos hmentions]
        refine .bind convertCondition_translated fun v => .of_and fun hv => .bind ih fun vs => .pure fun s hs => ?_
        exact ⟨.cons hv hs.1, hs.2⟩
      · rename_i hmentions
        rw [filterMap_cons, hformula, if_neg hmentions]
        exact ih
    · rename_i he
      rw [filterMap_cons, show c.formula? = none by simp [Column.formula?, he]]
      exact ih

theorem aggregateOf_written : Ensures (Knows known) (aggregateOf r v) fun w s =>
    Translated r ⟨v.member "expression", known⟩ (w.member "expression") ∧ Knows known s := by
  refine .bind_lift fun e he => .bind convertCondition_translated fun out => .of_and fun hout => ?_
  exact .bind_lift fun name _ => .pure fun s hs => ⟨member_of_field he ▸ hout, hs⟩

theorem aggregatesOf_written (vs) : Ensures (Knows known) (aggregatesOf r vs) fun ws s =>
    Forall₂ (Translated r) ((vs.map (·.member "expression")).map (⟨·, known⟩)) (ws.map (·.member "expression")) ∧
      Knows known s := by
  induction vs with
  | nil => exact .pure fun _ hs => ⟨.nil, hs⟩
  | cons v vs ih =>
    refine .bind aggregateOf_written fun w => .of_and fun hw => .bind ih fun ws => .pure fun s hs => ?_
    exact ⟨.cons hw hs.1, hs.2⟩

theorem splitGroup_written : Ensures (Knows known) (splitGroup r g) fun o s =>
    (if isRouted g then ∃ v, o = some v ∧ Translated r ⟨g.member "expression", []⟩ (v.member "expression")
      else o = none) ∧ Knows known s := by
  refine .bind_lift fun type htype => .ite (fun houtput => ?_) fun houtput => ?_
  · refine .bind_lift fun e he => .ite (fun hp => ?_) fun hp => ?_
    · refine .bind_lift fun name _ => .bind_lift fun o ho => .bind_lift fun fields _ => .pure fun s hs => ⟨?_, hs⟩
      rw [if_pos (by simp [isRouted, member_of_field htype, member_of_field he, houtput, hp])]
      refine ⟨_, rfl, fun x hx => ⟨o, rfl, ?_⟩⟩
      rw [member_of_field he] at hx
      subst hx
      rw [Use.respelled, show casingOf [] = [] from rfl, recased_nil]
      exact ho
    · refine .pure fun s hs => ⟨?_, hs⟩
      rw [if_neg (by simp [isRouted, member_of_field he, hp])]
  · refine .pure fun s hs => ⟨?_, hs⟩
    rw [if_neg (by simp [isRouted, member_of_field htype, houtput])]

theorem splitGroups_written (gs) : Ensures (Knows known) (splitGroups r gs) fun vs s =>
    Forall₂ (Translated r) (((gs.filter isRouted).map (·.member "expression")).map (⟨·, []⟩))
      (vs.map (·.member "expression")) ∧ Knows known s := by
  induction gs with
  | nil => exact .pure fun _ hs => ⟨.nil, hs⟩
  | cons g gs ih =>
    refine .bind splitGroup_written fun o => .of_and fun ho => .bind ih fun vs => .pure fun s hs => ⟨?_, hs.2⟩
    split at ho
    · rename_i hrouted
      obtain ⟨v, rfl, hv⟩ := ho
      rw [filter_cons_of_pos hrouted]
      exact .cons hv hs.1
    · rename_i hrouted
      rw [ho, filter_cons_of_neg hrouted]
      exact hs.1

theorem stable_knows : Stable (Knows known) where
  remark _ _ _ h := h
  error _ _ h := h

theorem warn_knows (w) : Preserves (Knows known) (warn w) := .modify fun _ hs => hs

/-! ## One step after another -/

/-- Only an expression defines columns. -/
theorem stepWritten_of_forall₂ (hother : t.type ≠ "Expression")
    (h : Forall₂ (Translated r) (t.uses known) (t.written v)) (hs : Knows known s) :
    StepWritten r known t v ∧ Knows (known ++ t.defined) s := by
  rw [Transformation.defined, if_neg hother, append_nil]
  exact ⟨⟨fun htype => absurd htype hother, h⟩, hs⟩

/-- The step of a transformation without expressions. -/
theorem stepWritten_of_preserves (hx : Preserves (Knows known) x)
    (hnone : t.type ∉ ["Expression", "Filter", "Aggregator", "Router"]) :
    Ensures (Knows known) x fun v s => StepWritten r known t v ∧ Knows (known ++ t.defined) s := by
  simp only [mem_cons, not_mem_nil, or_false, not_or] at hnone
  refine fun s v s' hs hrun => stepWritten_of_forall₂ hnone.1 ?_ (hx s v s' hs hrun)
  have huses : t.uses known = [] := by simp [Transformation.uses, hnone]
  have hwritten : t.written v = [] := by simp [Transformation.written, hnone]
  rw [huses, hwritten]
  exact .nil

theorem deriveStep_written (htype : t.type = "Expression") : Ensures (Knows known) (deriveStep r t type) fun v s =>
    StepWritten r known t v ∧ Knows (known ++ t.defined) s := by
  refine .bind (derivedColumns_written _ _) fun vs => .of_and fun hvs => .pure fun s hs => ⟨⟨fun _ => hvs.1, ?_⟩, ?_⟩
  · simp only [Transformation.uses, Transformation.written, htype]
    exact hvs.2
  · rwa [Transformation.defined, if_pos htype]

theorem filterStep_written (htype : t.type = "Filter") : Ensures (Knows known) (filterStep r t type) fun v s =>
    StepWritten r known t v ∧ Knows (known ++ t.defined) s := by
  refine .bind convertCondition_translated fun out => .of_and fun hout => .pure fun s hs => ?_
  refine stepWritten_of_forall₂ (by simp [htype]) ?_ hs
  simp only [Transformation.uses, Transformation.written, htype]
  exact .cons hout .nil

theorem splitStep_written (htype : t.type = "Router") : Ensures (Knows known) (splitStep r t type) fun v s =>
    StepWritten r known t v ∧ Knows (known ++ t.defined) s := by
  refine .bind_lift fun gs hgs => .bind (splitGroups_written gs) fun vs => .of_and fun hvs => ?_
  have last : ∀ s, Knows known s → StepWritten r known t
      (.object (stepHead t type ++ [("conditions", .list vs), ("defaultStream", property t "default_group" .null)])) ∧
        Knows (known ++ t.defined) s := by
    refine fun s hs => stepWritten_of_forall₂ (by simp [htype]) ?_ hs
    simp only [Transformation.uses, Transformation.written, htype, routed, hgs, Except.toOption, Option.getD_some]
    exact hvs
  exact .ite (fun _ => .bind (warn_knows _) fun _ => .pure last) fun _ => .pure last

theorem aggregateStep_written (htype : t.type = "Aggregator") : Ensures (Knows known) (aggregateStep r t type) fun v s =>
    StepWritten r known t v ∧ Knows (known ++ t.defined) s := by
  -- The step may end with a warning and a further member.
  have last : ∀ (ws : List Value) (b : Bool) (w : String) (fs : Fields),
      fs = stepHead t type ++ [("groupBy", property t "group_by_fields" (.list [])), ("aggregates", .list ws)] →
      Forall₂ (Translated r) ((aggregated t).map (⟨·, known⟩)) (ws.map (·.member "expression")) →
      Ensures (Knows known)
        (if b then do
            warn w
            return .object (fs ++ [("sorted_input", .bool true)])
          else return .object fs : Converting Value)
        fun v s => StepWritten r known t v ∧ Knows (known ++ t.defined) s := by
    rintro ws b w fs rfl hws
    refine .ite (fun _ => .bind (warn_knows _) fun _ => .pure fun s hs => ?_) fun _ => .pure fun s hs => ?_
    · refine stepWritten_of_forall₂ (by simp [htype]) ?_ hs
      simp only [Transformation.uses, Transformation.written, htype]
      exact hws
    · refine stepWritten_of_forall₂ (by simp [htype]) ?_ hs
      simp only [Transformation.uses, Transformation.written, htype]
      exact hws
  refine .bind_lift fun stated hstated => .bind (aggregatesOf_written stated) fun ws => .of_and fun hws => ?_
  cases stated with
  | nil =>
    obtain rfl : ws = [] := by simpa using hws
    have hcolumns : aggregated t = t.columns.filterMap fun c => (c.formula?.filter mentionsAggregate).map .text := by
      simp [aggregated, hstated, Except.toOption]
    refine .bind (aggregateColumns_written _) fun vs => .of_and fun hvs => ?_
    exact last vs _ _ _ rfl (hcolumns ▸ hvs)
  | cons v stated =>
    have hall : aggregated t = (v :: stated).map (·.member "expression") := by
      simp [aggregated, hstated, Except.toOption]
    have hfull : ws ≠ [] := by
      rintro rfl
      cases hws
    simp only [List.isEmpty_iff, hfull]
    exact last ws _ _ _ rfl (hall ▸ hws)

theorem convertStep_written : Ensures (Knows known) (convertStep r t type) fun v s =>
    StepWritten r known t v ∧ Knows (known ++ t.defined) s := by
  unfold convertStep
  split
  · exact deriveStep_written ‹_›
  · exact filterStep_written ‹_›
  · exact aggregateStep_written ‹_›
  · exact stepWritten_of_preserves (stable_knows.composed composed_joinStep) (by simp [‹t.type = "Joiner"›])
  · exact stepWritten_of_preserves (stable_knows.composed composed_sortStep) (by simp [‹t.type = "Sorter"›])
  · exact splitStep_written ‹_›
  · exact stepWritten_of_preserves (stable_knows.composed composed_lookupStep) (by simp [‹t.type = "Lookup"›])
  · exact stepWritten_of_preserves (stable_knows.composed composed_lookupStep) (by simp [‹t.type = "Lookup Procedure"›])
  · exact stepWritten_of_preserves (stable_knows.composed composed_changeStep) (by simp [‹t.type = "Update Strategy"›])
  · refine stepWritten_of_preserves .pure ?_
    simp_all

/-- The steps of transformations one after another; each knows what those before it define. -/
inductive Written (r : Rules) : List String → List Transformation → List Value → Prop
  | nil {known : List String} : Written r known [] []
  | cons {known : List String} {t : Transformation} {ts : List Transformation} {step : Value} {steps : List Value} :
    StepWritten r known t step → Written r (known ++ t.defined) ts steps → Written r known (t :: ts) (step :: steps)

theorem Converted.written (h : Converted r ts s vs u) (hs : Knows known s) :
    Written r known (ts.filter fun t => (r.kind? t.type).isSome) vs := by
  induction h generalizing known with
  | nil => exact .nil
  | step hkind hstep _ ih =>
    obtain ⟨hwritten, hs'⟩ := convertStep_written _ _ _ hs hstep
    rw [filter_cons_of_pos (by simp [hkind])]
    exact .cons hwritten (ih hs')
  | leave hkind _ ih =>
    rw [filter_cons_of_neg (by simp [hkind])]
    exact ih hs

theorem Written.get {before after : List Transformation} (h : Written r known (before ++ t :: after) steps) :
    ∃ step, steps[before.length]? = some step ∧ StepWritten r (known ++ before.flatMap (·.defined)) t step := by
  induction before generalizing known steps with
  | nil =>
    cases h with
    | cons hstep _ => exact ⟨_, rfl, by simpa using hstep⟩
  | cons b before ih =>
    cases h with
    | cons _ hrest =>
      obtain ⟨step, hget, hstep⟩ := ih hrest
      exact ⟨step, by simpa using hget, by simpa [append_assoc] using hstep⟩

/-! ## Mappings -/

end Conversion

/-- The columns of the sources. -/
def Mapping.sourceColumns (m : Mapping) : List String := m.sources.flatMap fun e => e.columns.map (·.name)

namespace Conversion

variable {r : Rules} {m : Mapping}

theorem casing_noteColumns (names) (s : State) : (names.foldl noteColumn s).casing = learnAll s.casing names := by
  induction names generalizing s with
  | nil => rfl
  | cons name names ih => exact ih _

theorem convertMapping_written (h : Runs (convertMapping r m) s plan u) :
    ∃ steps, plan.member "transformations" = .list steps ∧ Written r m.sourceColumns (m.known r) steps := by
  obtain ⟨p, v, hparts, -, rfl⟩ := convertMapping_fresh h
  refine ⟨p.2.1, rfl, ?_⟩
  have hbegun : Knows m.sourceColumns (begun m .start) := casing_noteColumns _ _
  obtain ⟨s₁, s₂, -, hkeep, hsteps, -⟩ := runs_convertParts hparts
  exact hsteps.written (hkeep _ stable_knows hbegun)

/-! ## Names that come through -/

/-- Neither the casing nor the conversion takes the name out of the expression; where the expression does not
    convert, neither does the renaming of functions. -/
structure Use.Spares (r : Rules) (u : Use) (name e : String) : Prop where
  spelled : spelling u.known name = name
  converted : ∀ o, convert (u.respelled e).toList = .ok o →
    Uses e.toList name.toList ∧ IsSafe name.toList ∧ IsUnmarked (u.respelled e).toList
  renamed : ∀ x, convert (u.respelled e).toList = .error x →
    StandsApart name.toList e.toList ∧ r.rename (.text name) = .ok name

/-- The text has the name as a word of its own. -/
def Mentions (out : Value) (name : String) : Prop := ∃ o : String, out = .text o ∧ ∃ b, Stands name.toList o.toList b

theorem convert_text (h : s ≠ "") : r.convert (.text s) = match convert s.toList with
    | .ok t => .ok (String.ofList t)
    | .error _ => r.rename (.text s) := by
  have hpresent : (Value.text s).isPresent = true := by simpa [Value.isPresent] using h
  rw [Rules.convert, hpresent]
  rfl

theorem Translated.mentions (hr : r.isOrdinary) (h : Translated r u out)
    (he : u.expression = .text e) (hspares : u.Spares r name e) : Mentions out name := by
  obtain ⟨o, rfl, ho⟩ := h e he
  refine ⟨o, rfl, ?_⟩
  have hspelled := isSpelled_casingOf hspares.spelled
  cases hconvert : convert (u.respelled e).toList with
  | ok t =>
    obtain ⟨huses, hsafe, hbare⟩ := hspares.converted t hconvert
    have hsees : Sees name.toList (u.respelled e).toList :=
      sees_recased (learned_casingOf _) hsafe.ne_nil hspelled (sees_of_uses huses)
    have hne : u.respelled e ≠ "" := fun hempty => not_sees_nil hsafe.ne_nil (by rwa [hempty] at hsees)
    rw [convert_text hne, hconvert, Except.ok.injEq] at ho
    rw [← ho, String.toList_ofList]
    exact stands_of_sees hsafe.word hsafe.ne_nil (sees_convert hsafe hbare hconvert hsees)
  | error x =>
    obtain ⟨hstands, hname⟩ := hspares.renamed x hconvert
    have hne : u.respelled e ≠ "" := fun hempty => by
      rw [hempty] at hconvert
      cases hconvert
    obtain ⟨o', ho', hkept⟩ := (hstands.recased (learned_casingOf _) hspelled).renamed hr hname
    rw [convert_text hne, hconvert] at ho
    cases ho'.symm.trans ho
    exact hkept.stands

/-- A column that an expression defines is written under its name, and every later use that spares the name still
    mentions it. -/
theorem later_uses_mention_definition (hr : r.isOrdinary = true) {s u : State} {plan : Value}
    (h : Runs (convertMapping r m) s plan u) {before between after : List Transformation} {d t : Transformation}
    (hknown : m.known r = before ++ d :: between ++ t :: after) (hd : d.type = "Expression")
    {c : Column} (hc : c ∈ d.columns) (hformula : c.formula?.isSome = true) :
    ∃ steps defining applying, plan.member "transformations" = .list steps ∧
      steps[before.length]? = some defining ∧ steps[before.length + 1 + between.length]? = some applying ∧
      (∃ column ∈ defining.memberList "columns", column.member "name" = .text c.name) ∧
      List.Forall₂ (fun use out => ∀ e, use.expression = .text e → use.Spares r c.name e → Mentions out c.name)
        (t.uses (m.sourceColumns ++ (before ++ d :: between).flatMap (·.defined))) (t.written applying) := by
  obtain ⟨steps, hsteps, hwritten⟩ := convertMapping_written h
  rw [hknown] at hwritten
  obtain ⟨applying, hlater, husing⟩ := hwritten.get
  rw [List.append_assoc, List.cons_append] at hwritten
  obtain ⟨defining, hearlier, hdefining⟩ := hwritten.get
  refine ⟨steps, defining, applying, hsteps, hearlier, ?_, ?_, ?_⟩
  · rwa [List.length_append, List.length_cons, Nat.add_comm between.length, ← Nat.add_assoc] at hlater
  · have hname : Value.text c.name ∈ (derivedNames d.columns).map Value.text :=
      List.mem_map_of_mem (List.mem_map_of_mem (List.mem_filter.mpr ⟨hc, hformula⟩))
    rw [← hdefining.names hd] at hname
    exact List.mem_map.mp hname
  · exact husing.uses.imp fun use out htranslated e he hspares => htranslated.mentions hr he hspares

/-- A column of which two others are made: one converts, the other does not. -/
def totals : Mapping :=
  ⟨"m", none, "1", [⟨"S", "Oracle", none, [⟨"A", "number", 10, 0, none, none⟩], []⟩], [],
    [⟨"EXP", "Expression", none, [⟨"TOTAL", "number", 10, 0, some "A + B", none⟩], []⟩,
      ⟨"EXP_NET", "Expression", none, [⟨"NET", "number", 10, 0, some "(TOTAL - a)", none⟩,
        ⟨"FLAG", "number", 1, 0, some "TOTAL > 5 and a", none⟩], []⟩], [], []⟩

theorem totals_used : ∃ plan u steps defining applying, Runs (convertMapping .standard totals) .start plan u ∧
    plan.member "transformations" = .list steps ∧ steps[0]? = some defining ∧ steps[1]? = some applying ∧
    (∃ column ∈ defining.memberList "columns", column.member "name" = .text "TOTAL") ∧
    ∃ net flag, (applying.memberList "columns").map (·.member "expression") = [net, flag] ∧
      Mentions net "TOTAL" ∧ Mentions flag "TOTAL" := by
  obtain ⟨plan, u, hrun⟩ := (convertMapping_runs_iff (m := totals) .start).mpr (by decide +kernel)
  have hknown : totals.known .standard = [] ++
      ⟨"EXP", "Expression", none, [⟨"TOTAL", "number", 10, 0, some "A + B", none⟩], []⟩ :: [] ++
      ⟨"EXP_NET", "Expression", none, [⟨"NET", "number", 10, 0, some "(TOTAL - a)", none⟩,
        ⟨"FLAG", "number", 1, 0, some "TOTAL > 5 and a", none⟩], []⟩ :: [] := rfl
  obtain ⟨steps, defining, applying, hsteps, hdefining, happlying, hnamed, hused⟩ :=
    later_uses_mention_definition (by decide +kernel) hrun hknown rfl (List.mem_singleton.mpr rfl) rfl
  obtain ⟨net, flags, hnet, hflags, hcolumns⟩ := List.forall₂_cons_left_iff.mp hused
  obtain ⟨flag, rest, hflag, hrest, rfl⟩ := List.forall₂_cons_left_iff.mp hflags
  obtain rfl := List.forall₂_nil_left_iff.mp hrest
  refine ⟨plan, u, steps, defining, applying, hrun, hsteps, hdefining, happlying, hnamed, net, flag, hcolumns, ?_, ?_⟩
  · have hsafe : IsSafe "TOTAL".toList :=
      ⟨by decide, by decide +kernel, by decide, by decide +kernel, by decide +kernel, by decide +kernel⟩
    have hstands : Stands "TOTAL".toList "(TOTAL - a)".toList " - a)".toList :=
      ⟨hsafe.ne_nil, hsafe.word, by decide +kernel, "(".toList, by decide, by decide +kernel⟩
    have hconverts := ok_of_toOption (e := convert (recased (casingOf ["A", "TOTAL"]) "(TOTAL - a)").toList)
      (a := "(TOTAL - A)".toList) (by decide +kernel)
    have huses : Uses "(TOTAL - a)".toList "TOTAL".toList := ⟨_, hstands, by decide +kernel, by decide⟩
    refine hnet _ rfl ⟨by decide +kernel, fun _ _ => ⟨huses, hsafe, fun b => ?_⟩, fun x hx => ?_⟩
    · exact ⟨not_stands_of_contains (by decide +kernel), not_stands_of_contains (by decide +kernel)⟩
    · cases hconverts.symm.trans hx
  · have hfails : (convert (recased (casingOf ["A", "TOTAL", "NET"]) "TOTAL > 5 and a").toList).isOk = false := by
      decide +kernel
    have hstands : StandsApart "TOTAL".toList "TOTAL > 5 and a".toList :=
      ⟨by decide, by decide +kernel, [], " > 5 and a".toList, by decide, by decide, by decide +kernel⟩
    refine hflag _ rfl ⟨by decide +kernel, fun o ho => ?_, fun _ _ => ⟨hstands, ok_of_toOption (by decide +kernel)⟩⟩
    have hok : convert (recased (casingOf ["A", "TOTAL", "NET"]) "TOTAL > 5 and a").toList = .ok o := ho
    rw [hok] at hfails
    cases hfails

/-- A column whose name begins with a marker of direction. -/
def markedExpression : Transformation :=
  ⟨"EXP", "Expression", none, [⟨"OUT_TOTAL", "number", 10, 0, some "A + B", none⟩], []⟩

def markedFilter : Transformation := ⟨"FLT", "Filter", none, [], [("filter_condition", .text "OUT_TOTAL > 5")]⟩

def markedTotals : Mapping :=
  ⟨"m", none, "10.x", [⟨"S", "Oracle", none, [], []⟩], [⟨"T", "Oracle", none, [], []⟩], [markedExpression, markedFilter],
    [⟨"S", "EXP", [], []⟩, ⟨"EXP", "FLT", [], []⟩, ⟨"FLT", "T", [], []⟩], []⟩

/-- The filter asks for a column that no step defines. -/
theorem markedTotals_lost : ∃ plan u defining applying, Runs (convertMapping .standard markedTotals) .start plan u ∧
    plan.member "transformations" = .list [defining, applying] ∧
    (defining.memberList "columns").map (·.member "name") = [.text "OUT_TOTAL"] ∧
    Uses "OUT_TOTAL > 5".toList "OUT_TOTAL".toList ∧ applying.member "condition" = .text "TOTAL > 5" ∧
    ¬ Mentions (applying.member "condition") "OUT_TOTAL" := by
  obtain ⟨plan, u, hrun⟩ := (convertMapping_runs_iff (m := markedTotals) .start).mpr (by decide +kernel)
  obtain ⟨steps, hsteps, hwritten⟩ := convertMapping_written hrun
  obtain ⟨defining, applying, rfl, hdefining, happlying⟩ : ∃ defining applying, steps = [defining, applying] ∧
      StepWritten .standard [] markedExpression defining ∧ StepWritten .standard ["OUT_TOTAL"] markedFilter applying := by
    have hboth : Written .standard [] [markedExpression, markedFilter] steps := hwritten
    cases hboth with
    | cons hfirst hrest =>
      cases hrest with
      | cons hsecond hnone =>
        cases hnone
        exact ⟨_, _, rfl, hfirst, hsecond⟩
  have hcondition : applying.member "condition" = .text "TOTAL > 5" := by
    have huses : List.Forall₂ (Translated .standard) [⟨.text "OUT_TOTAL > 5", ["OUT_TOTAL"]⟩]
        [applying.member "condition"] := happlying.uses
    obtain ⟨o, ho, hconvert⟩ := (List.forall₂_cons.mp huses).1 _ rfl
    have hmarked : Rules.standard.convert (.text (recased (casingOf ["OUT_TOTAL"]) "OUT_TOTAL > 5")) = .ok "TOTAL > 5" :=
      ok_of_toOption (by decide +kernel)
    rw [ho, Except.ok.inj (hconvert.symm.trans hmarked)]
  refine ⟨plan, u, defining, applying, hrun, hsteps, hdefining.names rfl, ?_, hcondition, ?_⟩
  · exact ⟨" > 5".toList, ⟨by decide, by decide +kernel, by decide +kernel, [], by decide, by decide +kernel⟩,
      by decide +kernel, by decide⟩
  · rw [hcondition]
    rintro ⟨o, ho, b, hb⟩
    cases ho
    exact not_stands_of_contains (by decide +kernel) hb

end Conversion

end MappingFlow
