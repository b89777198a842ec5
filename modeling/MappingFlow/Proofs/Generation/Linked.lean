/-
  MappingFlow.Proofs.Generation.Linked — when a linked data flow passes the check.

  A linked flow is checked before it is written, for its parts and its dependencies only.
  What is written therefore lacks nothing but settings: sources and sinks always pass,
  and a step passes exactly if the settings it is built with are those that its type
  needs (`isComplete`). They are for the seven types that the generator knows. A change
  of rows that is not one of four known ones has none, and a type that the generator does
  not know is written in small letters and without settings, so that it fails if this is
  the name of a type that needs them. `holds_deployable` puts this together.
-/

import MappingFlow.Proofs.Dataflow.Structure
import MappingFlow.Proofs.Generation.Accounting

namespace MappingFlow.Generation.Linked

open Conversion Dataflow Value
open List

/-! ## Complete transformations -/

/-- The types of transformations that become steps with all their settings. -/
def builtTypes : List String := ["DerivedColumn", "Filter", "Aggregate", "Join", "Sort", "ConditionalSplit", "Lookup"]

/-- The types of steps that need settings. -/
def settledTypes : List String :=
  ["derivedColumn", "filter", "aggregate", "join", "sort", "conditionalSplit", "lookup", "alterRow"]

/-- Whether the step made of a transformation has the settings that its type needs: a change of rows has to be of a known
kind, and any other type that is not built may not be one of those that need settings, but for its case. -/
def isComplete (u : Value) : Bool :=
  match u.member "type" with
  | .text "AlterRow" =>
    (u.fieldD "action" (.text "insert")).toOption.any (·.isOneOf ["insert", "update", "delete", "upsert"])
  | .text s => builtTypes.contains s || !settledTypes.contains (String.ofList (Text.lower s.toList))
  | _ => true

/-- A transformation becomes a step unless it stands for a source or has the name of one. -/
def isWritten (sources : List Value) (u : Value) : Bool :=
  !sources.any (u.member "name").same && !(u.member "type").isOneOf sourceTypes

/-! ## Steps -/

/-- A step that depends on something, and has its settings exactly in the case given. -/
def IsBuilt (complete : Prop) (v : Value) : Prop :=
  ∃ name type deps settings, v = stepDocument name type deps settings ∧ deps ≠ [] ∧
    (HasSettings type (.object settings) ↔ complete)

variable {t type previous name : Value} {steps sources : List Value}

theorem namedExpressions_columns (label) (cs) : Answers (namedExpressions label cs) fun vs => ∀ v ∈ vs, IsColumn v := by
  induction cs with
  | nil => exact .pure (by simp)
  | cons c cs ih =>
    refine .bind (Q := IsColumn) ?_ fun v hv => .bind ih fun vs hvs => .pure (forall_mem_cons.mpr ⟨hv, hvs⟩)
    exact .after fun e => .after fun w => .after fun name => .pure ⟨⟨name, rfl⟩, _, rfl, ⟨w, rfl⟩, _, rfl⟩

theorem deriveStep_built : Answers (deriveStep t previous) (IsBuilt True) := by
  refine .after fun _ => .after fun _ => .bind (namedExpressions_columns _ _) fun columns hcolumns =>
    .after fun name => .pure ?_
  exact ⟨name, _, [previous], _, rfl, cons_ne_nil _ _, iff_true_intro ⟨rfl, _, columns, rfl, rfl, hcolumns⟩⟩

theorem filterStep_built : Answers (filterStep t previous) (IsBuilt True) := by
  refine .after fun _ => .after fun v => .after fun name => .pure ?_
  exact ⟨name, _, [previous], _, rfl, cons_ne_nil _ _, iff_true_intro ⟨rfl, _, rfl, ⟨v, rfl⟩, _, rfl⟩⟩

theorem aggregateStep_built : Answers (aggregateStep t previous) (IsBuilt True) := by
  refine .after fun _ => .after fun _ => .after fun aggregates => .after fun name => .after fun groupBy => .pure ?_
  exact ⟨name, _, [previous], _, rfl, cons_ne_nil _ _, iff_true_intro ⟨rfl, rfl⟩⟩

theorem splitStep_built : Answers (splitStep t previous) (IsBuilt True) := by
  refine .after fun _ => .after fun _ => .after fun conditions => .after fun name => .after fun default => .pure ?_
  exact ⟨name, _, [previous], _, rfl, cons_ne_nil _ _, iff_true_intro ⟨rfl, rfl⟩⟩

theorem joinStep_built (h : joinStep t steps = .ok v) : IsBuilt True v := by
  unfold joinStep at h
  split at h <;> simp only [bind_eq_ok] at h
  · obtain ⟨name, -, h⟩ := h
    cases h
  · rename_i left right _
    obtain ⟨_, -, name, -, _, -, h⟩ := h
    cases h
    refine ⟨name, _, [left, right], _, rfl, cons_ne_nil _ _, iff_true_intro ⟨rfl, ?_⟩⟩
    simp [Suffices, field, Fields.get?, lookup_cons]

theorem sortStep_built (h : sortStep t previous = .ok v) : IsBuilt True v := by
  simp only [sortStep, bind_eq_ok] at h
  obtain ⟨name, -, _, -, _, -, h⟩ := h
  cases h
  exact ⟨name, _, [previous], _, rfl, cons_ne_nil _ _, iff_true_intro ⟨rfl, rfl⟩⟩

theorem lookupStep_built (h : lookupStep t previous = .ok v) : IsBuilt True v := by
  simp only [lookupStep, bind_eq_ok] at h
  obtain ⟨_, -, _, -, name, -, h⟩ := h
  cases h
  exact ⟨name, _, [previous], _, rfl, cons_ne_nil _ _, iff_true_intro ⟨rfl, rfl⟩⟩

/-- The settings of a change are empty unless its kind is known. -/
theorem changeSettings_settled (h : changeSettings t = .ok settings) :
    HasSettings (.text "alterRow") (.object settings) ↔
      (t.fieldD "action" (.text "insert")).toOption.any (·.isOneOf ["insert", "update", "delete", "upsert"]) = true := by
  obtain ⟨action, haction, h⟩ := bind_eq_ok.mp h
  rw [haction]
  have never : ¬HasSettings (.text "alterRow") (.object []) := by
    rintro ⟨-, key, -, hkey⟩
    cases hkey
  cases action with
  | text a =>
    simp only at h
    split at h
    · rename_i hknown
      obtain ⟨condition, -, h⟩ := bind_eq_ok.mp h
      cases h
      simp only [contains_iff_mem, mem_cons, not_mem_nil, or_false] at hknown
      have hkey : a ++ "Condition" ∈ Check.changeConditions := by
        rcases hknown with rfl | rfl | rfl | rfl <;> decide
      refine iff_of_true ⟨rfl, a ++ "Condition", hkey, holdsKey_of_field (w := expressionValue condition) ?_⟩ ?_
      · simp [field, Fields.get?]
      · simpa [Except.toOption, isOneOf, isText] using hknown
    · rename_i hunknown
      cases h
      refine iff_of_false never fun hknown => hunknown ?_
      simpa [Except.toOption, isOneOf, isText] using hknown
  | _ =>
    cases h
    exact iff_of_false never Bool.false_ne_true

theorem changeStep_built (h : changeStep t previous = .ok v) : IsBuilt
    ((t.fieldD "action" (.text "insert")).toOption.any (·.isOneOf ["insert", "update", "delete", "upsert"])) v := by
  obtain ⟨settings, hsettings, h⟩ := bind_eq_ok.mp h
  obtain ⟨name, -, h⟩ := bind_eq_ok.mp h
  cases h
  exact ⟨name, _, [previous], settings, rfl, cons_ne_nil _ _, changeSettings_settled hsettings⟩

/-- A step without settings has all it needs unless its type needs settings. -/
theorem hasSettings_nil (s) : HasSettings (.text s) (.object []) ↔ settledTypes.contains s = false := by
  by_cases hs : s ∈ settledTypes
  · refine iff_of_false (fun h => ?_) (by simpa using hs)
    simp only [settledTypes, mem_cons, not_mem_nil, or_false] at hs
    have hnone : ∀ key, (object []).holdsKey key = .ok false := fun _ => rfl
    rcases hs with rfl | rfl | rfl | rfl | rfl | rfl | rfl | rfl <;>
      simp [HasSettings, Suffices, hnone, field, Fields.get?] at h
    exact (h.2 "joinType").1 rfl
  · refine iff_of_true ⟨rfl, ?_⟩ (by simpa using hs)
    unfold Suffices
    split
    case h_9 => trivial
    all_goals
      rename_i heq
      cases heq
      exact absurd (by decide) hs

theorem otherStep_built (htype : t.field "type" = .ok type) (h : otherStep t previous = .ok v) :
    ∃ s, type = .text s ∧ IsBuilt (settledTypes.contains (String.ofList (Text.lower s.toList)) = false) v := by
  obtain ⟨name, -, h⟩ := bind_eq_ok.mp h
  have h := of_ok_bind htype h
  cases type with
  | text s =>
    cases h
    exact ⟨s, rfl, name, _, [previous], [], rfl, cons_ne_nil _ _, hasSettings_nil _⟩
  | _ => cases h

theorem isComplete_other (htype : t.member "type" = .text s) (hchange : s ≠ "AlterRow")
    (hother : builtTypes.contains s = false) :
    isComplete t = !settledTypes.contains (String.ofList (Text.lower s.toList)) := by
  unfold isComplete
  rw [htype]
  split
  · rename_i h
    cases h
    exact absurd rfl hchange
  · rename_i h
    cases h
    rw [hother, Bool.false_or]
  · rename_i h
    exact absurd rfl (h s)

theorem step_built (htype : t.field "type" = .ok type) :
    Answers (step t type previous steps) (IsBuilt (isComplete t)) := by
  have hmember := member_of_field htype
  have hbuilt : ∀ s ∈ builtTypes, type = .text s → ∀ {x : Generating Value}, Answers x (IsBuilt True) →
      Answers x (IsBuilt (isComplete t)) := by
    rintro s hs rfl x hx
    have : (isComplete t = true) = True := by
      unfold isComplete
      rw [hmember]
      simp only [builtTypes, mem_cons, not_mem_nil, or_false] at hs
      rcases hs with rfl | rfl | rfl | rfl | rfl | rfl | rfl <;> exact eq_true rfl
    rwa [this]
  unfold step
  split
  · exact hbuilt _ (by decide) rfl deriveStep_built
  · exact hbuilt _ (by decide) rfl filterStep_built
  · exact hbuilt _ (by decide) rfl aggregateStep_built
  · exact hbuilt _ (by decide) rfl (.lift fun v => joinStep_built)
  · exact hbuilt _ (by decide) rfl (.lift fun v => sortStep_built)
  · exact hbuilt _ (by decide) rfl splitStep_built
  · exact hbuilt _ (by decide) rfl (.lift fun v => lookupStep_built)
  · unfold isComplete
    rw [hmember]
    exact .lift fun v => changeStep_built
  · refine .lift fun v h => ?_
    obtain ⟨s, rfl, hstep⟩ := otherStep_built htype h
    have hother : s ≠ "AlterRow" ∧ builtTypes.contains s = false := by simp_all [builtTypes]
    rwa [isComplete_other hmember hother.1 hother.2, Bool.not_eq_true']

/-- What is answered was built: a fault is noted and thrown again. -/
theorem guarded_answers {Q : Value → Prop} (h : Answers build Q) : Answers (guarded name build) Q := by
  intro s v u hrun
  rcases Runs.tryCatch_iff.mp hrun with hbuild | ⟨f, _, -, hagain⟩
  · exact h s v u hbuild
  · obtain ⟨_, _, -, hthrow⟩ := Runs.bind_iff.mp hagain
    exact (Runs.throw_iff.mp hthrow).elim

/-! ## Flows -/

/-- A step for each transformation that is written, which all have a name. -/
def AreBuilt (sources ts : List Value) (vs : List (Value × Value)) : Prop :=
  (∀ u ∈ ts, ∃ name, u.field "name" = .ok name) ∧
    Forall₂ (fun u => IsBuilt (isComplete u)) (ts.filter (isWritten sources)) (vs.map (·.2))

theorem stepsFrom_built (before) (known ts) : Answers (stepsFrom sources before known ts) (AreBuilt sources ts) := by
  induction ts generalizing before known with
  | nil => exact .pure ⟨by simp, .nil⟩
  | cons t ts ih =>
    refine .bind (.lift fun _ h => h) fun name hname => .bind (.lift fun _ h => h) fun type htype =>
      .bind (.lift fun _ h => inSet_eq h) fun b hb => ?_
    have hwritten : isWritten sources t = (!b && !type.isOneOf sourceTypes) := by
      rw [isWritten, member_of_field hname, member_of_field htype, hb]
    -- A transformation that is passed over, for its name or for its type, leaves only its name behind.
    have skipped (hskip : isWritten sources t = false) (vs) (h : AreBuilt sources ts vs) : AreBuilt sources (t :: ts) vs := by
      rw [AreBuilt, filter_cons_of_neg (by simp [hskip])]
      exact ⟨forall_mem_cons.mpr ⟨⟨name, hname⟩, h.1⟩, h.2⟩
    refine .ite (fun hclash => .after fun _ => (ih _ _).imp (skipped (by simp [hwritten, hclash]))) fun hfree =>
      .ite (fun hsource => (ih _ _).imp (skipped (by simp [hwritten, hsource]))) fun hstep => ?_
    have rest (previous : Value) : Answers (do
          let v ← guarded name (step t type previous known)
          let vs ← stepsFrom sources (some name) (insertStep name known) ts
          return (name, v) :: vs) (AreBuilt sources (t :: ts)) := by
      refine .bind (guarded_answers (step_built htype)) fun v hv => .bind (ih _ _) fun vs hvs => .pure ?_
      rw [AreBuilt, filter_cons_of_pos (by simp [hwritten, hfree, hstep])]
      exact ⟨forall_mem_cons.mpr ⟨⟨name, hname⟩, hvs.1⟩, .cons hv hvs.2⟩
    dsimp only
    split
    · exact .after rest
    · split <;> exact .after rest

/-- The sources of a flow are those that lead somewhere. -/
theorem eachSource_eq (connected seen ss) : Answers (eachSource connected sourceEntry seen ss) fun ds =>
    ds = (ss.filter fun s => connected.any (s.member "name").same).map fun s => (s.member "name",
      .object [("name", s.member "name"), ("dataset", datasetReference (.text (plainDataset (s.member "name") true)))]) := by
  induction ss generalizing seen with
  | nil => exact .pure rfl
  | cons s ss ih =>
    refine .bind (.lift fun _ h => h) fun name hname => ?_
    obtain rfl := member_of_field hname
    refine .ite (fun _ => .after fun _ => .throw) fun _ => .ite (fun horphan => .after fun _ => ?_) fun hkept => ?_
    · rw [filter_cons_of_neg (by simpa using horphan)]
      exact ih seen
    · refine .bind (.pure rfl) fun entry hentry => .bind (ih _) fun ds hds => .pure ?_
      rw [filter_cons_of_pos (by simpa using hkept), map_cons, ← hds, hentry]

theorem sinkEntries_eq (last?) (ss) : Answers (sinkEntries last? ss) fun es =>
    ∀ e ∈ es, ∃ name dataset last, e = .object [("name", name), ("dataset", datasetReference (.text dataset)),
      ("dependsOn", .list [dependency last])] := by
  induction ss with
  | nil => exact .pure (by simp)
  | cons s ss ih =>
    unfold sinkEntries
    cases last? with
    | none => exact .throw
    | some last =>
      refine .after fun name => .bind ih fun es hes => .pure (forall_mem_cons.mpr ⟨?_, hes⟩)
      exact ⟨name, _, last, rfl⟩

theorem deployable_document_iff {name : String} :
    Deployable (document name description sources steps sinks) ↔ (∀ s ∈ sources, IsSource s) ∧
      EachAfter (fun before => IsStep (givenNames sources ++ givenNames before)) steps ∧
      ∀ s ∈ sinks, IsSink (givenNames sources ++ givenNames steps) s := by
  constructor
  · rintro ⟨_, _, _, ⟨-, -, _, _, hp, -, hq, hsources, hsteps, hsinks, -⟩, hflow⟩
    cases hp
    cases hq
    cases hsources
    cases hsteps
    cases hsinks
    exact hflow
  · intro hflow
    exact ⟨sources, steps, sinks, ⟨⟨_, rfl, rfl⟩, rfl, _, _, rfl, rfl, rfl, rfl, rfl, rfl, _, rfl⟩, hflow⟩

theorem linked_document {name : String}
    (h : Structure.Linked (document name description sources steps sinks)) : (∀ s ∈ sources, ∃ name, Named s name) ∧
      EachAfter (fun before => Structure.IsLinked (givenNames sources ++ givenNames before)) steps ∧
      ∀ s ∈ sinks, Structure.Depends (givenNames sources ++ givenNames steps) s := by
  obtain ⟨_, _, -, -, hp, -, hq, -, _, _, _, _, _, _, hv, hsources, hw, hsteps, hx, hsinks, hlinks⟩ := h
  cases hp
  cases hq
  cases hv
  cases hsources
  cases hw
  cases hsteps
  cases hx
  cases hsinks
  exact hlinks

/-- Dependencies that the generator writes have all that is asked of them. -/
theorem areDependencies_of_depends (h : Structure.Depends steps t)
    (hdeps : t.field "dependsOn" = .ok (.list (deps.map dependency))) (hsome : deps ≠ []) :
    AreDependencies steps (.list (deps.map dependency)) := by
  obtain ⟨w, ds, hw, hds, hall⟩ := h
  cases hw.symm.trans hdeps
  cases hds
  refine ⟨_, rfl, mt map_eq_nil_iff.mp hsome, fun d hd => ⟨hall d hd, ?_⟩⟩
  obtain ⟨dep, -, rfl⟩ := mem_map.mp hd
  exact ⟨_, _, rfl, rfl⟩

theorem isStep_iff {complete : Prop} (h : IsBuilt complete t) (hlinked : Structure.IsLinked steps t) :
    IsStep steps t ↔ complete := by
  obtain ⟨name, type, deps, settings, rfl, hsome, hiff⟩ := h
  refine ⟨fun hstep => hiff.mp ?_, fun hcomplete => ⟨hlinked.named, ?_, _, _, rfl, rfl, hiff.mpr hcomplete⟩⟩
  · obtain ⟨_, _, htype, hp, hsettings⟩ := hstep.settings
    cases htype
    cases hp
    exact hsettings
  · exact ⟨_, rfl, areDependencies_of_depends hlinked.depends rfl hsome⟩

/-- Steps that are linked lack nothing but settings. -/
theorem eachAfter_isStep_iff (hbuilt : Forall₂ (fun u => IsBuilt (isComplete u)) us vs)
    (hlinked : EachAfter (fun before => Structure.IsLinked (steps ++ givenNames before)) vs) :
    EachAfter (fun before => IsStep (steps ++ givenNames before)) vs ↔ ∀ u ∈ us, isComplete u = true := by
  induction hbuilt generalizing steps with
  | nil => exact iff_of_true .nil (by simp)
  | cons hv _ ih =>
    obtain ⟨hhead, hrest⟩ := eachAfter_givenNames_cons.mp hlinked
    rw [eachAfter_givenNames_cons, forall_mem_cons]
    exact and_congr (isStep_iff hv hhead) (ih hrest)

/-! ## The parts of a structure -/

variable {plan v : Value}

/-- Sources that lead somewhere are as good as all of them. -/
theorem any_kept (hnamed : ∀ s ∈ ss, ∃ name, Named s name) (n : Value) :
    ((ss.filter fun s => (givenNames ss).any (s.member "name").same).map (·.member "name")).any n.same =
      (givenNames ss).any n.same := by
  rw [← any_filter_same (hashable_givenNames hnamed) n, givenNames, filter_map]
  rfl

/-! ## What is written -/

/-- A flow as it is written, with what the check before writing found. -/
theorem linkedDataflow_deployable {name path : String} {s t : State}
    (h : Runs (linkedDataflow folder moment name plan) s path t) :
    ∃ d, t.Holds path d ∧ (Deployable d ↔ ∀ u ∈ plan.memberList "transformations",
      isWritten (givenNames (plan.memberList "sources")) u → isComplete u) := by
  obtain ⟨connected, hconnected, h⟩ := Runs.bind_lift_iff.mp h
  obtain ⟨_, hpart, h⟩ := Runs.bind_lift_iff.mp h
  obtain ⟨ss, hitems, h⟩ := Runs.bind_lift_iff.mp h
  obtain ⟨declared, _, hdeclared, h⟩ := Runs.bind_iff.mp h
  obtain ⟨_, hstepsPart, h⟩ := Runs.bind_lift_iff.mp h
  obtain ⟨ts, hstepsItems, h⟩ := Runs.bind_lift_iff.mp h
  obtain ⟨steps, _, hsteps, h⟩ := Runs.bind_iff.mp h
  obtain ⟨_, hsinksPart, h⟩ := Runs.bind_lift_iff.mp h
  obtain ⟨_, hsinksItems, h⟩ := Runs.bind_lift_iff.mp h
  obtain ⟨sinks, _, hsinks, h⟩ := Runs.bind_iff.mp h
  obtain ⟨description, -, h⟩ := Runs.bind_lift_iff.mp h
  obtain ⟨_, hcheck, h⟩ := Runs.bind_lift_iff.mp h
  refine ⟨_, (save_holds h).1, ?_⟩
  have hdeclared := eachSource_eq connected [] ss _ _ _ hdeclared
  obtain ⟨htsNamed, hbuilt⟩ := stepsFrom_built _ _ ts _ _ _ hsteps
  have hsinks := sinkEntries_eq _ _ _ _ _ hsinks
  obtain ⟨hssNamed, hconnected⟩ :=
    connectedSources_named hconnected hpart hitems hstepsPart hstepsItems hsinksPart hsinksItems
  obtain ⟨hnamed, hlinked, hends⟩ := linked_document (Structure.check_eq_ok_iff.mp hcheck)
  rw [deployable_document_iff, memberList_of_part hstepsPart hstepsItems htsNamed,
    memberList_of_part hpart hitems fun s hs => (hssNamed s hs).imp fun _ => And.left]
  have hsourcesOk : ∀ s ∈ declared.map (·.2), IsSource s := by
    intro s hs
    refine ⟨hnamed s hs, ?_⟩
    rw [hdeclared, map_map] at hs
    obtain ⟨source, -, rfl⟩ := mem_map.mp hs
    exact ⟨_, rfl, ⟨_, rfl⟩, rfl⟩
  have hsinksOk : ∀ s ∈ sinks, IsSink (givenNames (declared.map (·.2)) ++ givenNames (steps.map (·.2))) s := by
    intro s hs
    have hdepends := hends s hs
    obtain ⟨name, dataset, last, rfl⟩ := hsinks s hs
    have hlast : [last] ≠ [] := cons_ne_nil _ _
    exact ⟨⟨name, rfl⟩, ⟨_, rfl, ⟨_, rfl⟩, rfl⟩, _, rfl, areDependencies_of_depends hdepends rfl hlast⟩
  rw [and_iff_right hsourcesOk, and_iff_left hsinksOk, eachAfter_isStep_iff hbuilt hlinked]
  simp only [mem_filter, and_imp]
  refine forall₂_congr fun u hu => ?_
  -- A source can be left out only of a flow without transformations, where no step is asked about it.
  rcases hconnected with rfl | ⟨rfl, -⟩
  · rw [isWritten, isWritten, hdeclared, map_map, Function.comp_def, any_kept hssNamed]
  · cases hu

variable {g : Generator} {name path : String} {s t : State}

theorem holds_deployable (hstyle : g.style = .linked) (h : Runs (g.dataflow name plan) s path t) :
    ∃ d, t.Holds path d ∧ (Deployable d ↔ ∀ u ∈ plan.memberList "transformations",
      isWritten (givenNames (plan.memberList "sources")) u → isComplete u) := by
  rw [Generator.dataflow, hstyle] at h
  exact linkedDataflow_deployable h

/-- What the generator writes passes the check exactly if no step lacks the settings that its type needs. -/
theorem accepts_iff_complete (hstyle : g.style = .linked) (h : Runs (g.dataflow name plan) s path t) :
    ∃ d, t.Holds path d ∧ ∀ f, (Check.Accepts f d ↔ ∀ u ∈ plan.memberList "transformations",
      isWritten (givenNames (plan.memberList "sources")) u = true → isComplete u = true) := by
  obtain ⟨d, hholds, hiff⟩ := holds_deployable hstyle h
  exact ⟨d, hholds, fun f => Check.accepts_iff.trans hiff⟩

/-- Linked flows, in the current folder. -/
def linksHere : Generator := ⟨.linked, ⟨false, []⟩, ⟨2024, 1, 1, 0, 0, 0⟩⟩

/-- Whether every step that is written of a mapping has its settings, if a data flow can be written. -/
def completes? (r : Rules) (m : Mapping) : Option Bool := do
  let plan ← (outcome (convertMapping r m) .start).1.toOption
  let _ ← (outcome (linksHere.dataflow m.name plan) (.start .empty)).1.toOption
  return (plan.memberList "transformations").all fun u =>
    !isWritten (givenNames (plan.memberList "sources")) u || isComplete u

theorem exists_written (h : completes? r m = some b) : ∃ plan s' path t, Runs (convertMapping r m) .start plan s' ∧
      Runs (linksHere.dataflow m.name plan) (.start .empty) path t ∧ ((∀ u ∈ plan.memberList "transformations",
        isWritten (givenNames (plan.memberList "sources")) u → isComplete u) ↔ b) := by
  obtain ⟨plan, hplan, h⟩ := Option.bind_eq_some_iff.mp h
  obtain ⟨path, hpath, h⟩ := Option.bind_eq_some_iff.mp h
  refine ⟨plan, _, path, _, Runs.of_toOption hplan, Runs.of_toOption hpath, ?_⟩
  rw [← Option.some.inj h, all_eq_true]
  refine forall₂_congr fun u _ => ?_
  rw [Bool.or_eq_true, Bool.not_eq_true', ← Bool.not_eq_true, Decidable.imp_iff_not_or]

/-- Rows in order, all of them to be changed in a way that is known. -/
def renewedRows : Mapping :=
  .between [sorter "A", ⟨"UPD", "Update Strategy", none, [], [("strategy", .text "DD_UPDATE")]⟩]
    [("S", "A"), ("A", "UPD"), ("UPD", "T")]

theorem renewedRows_accepted : ∃ plan s' path t, Runs (convertMapping .builtIn renewedRows) .start plan s' ∧
      Runs (linksHere.dataflow "m" plan) (.start .empty) path t ∧
      ∃ d, t.Holds path d ∧ ∀ f, Check.Accepts f d := by
  have hcompletes : completes? .builtIn renewedRows = some true := by decide +kernel
  obtain ⟨plan, s', path, t, hconvert, hrun, hcomplete⟩ := exists_written hcompletes
  obtain ⟨d, hholds, hiff⟩ := accepts_iff_complete rfl hrun
  exact ⟨plan, s', path, t, hconvert, hrun, d, hholds, fun f => (hiff f).mpr (hcomplete.mpr rfl)⟩

/-- Rows that are all to be rejected. -/
def rejectedRows : Mapping :=
  .between [⟨"UPD", "Update Strategy", none, [], [("strategy", .text "DD_REJECT")]⟩] [("S", "UPD"), ("UPD", "T")]

/-- A change to the rows that is none of the four known ones is written without a condition. -/
theorem rejectedRows_not_accepted : Review.Accepts rejectedRows ∧
    ∃ plan s' path t, Runs (convertMapping .builtIn rejectedRows) .start plan s' ∧
      Runs (linksHere.dataflow "m" plan) (.start .empty) path t ∧
      ∃ d, t.Holds path d ∧ ∀ f, ¬Check.Accepts f d := by
  have hcompletes : completes? .builtIn rejectedRows = some false := by decide +kernel
  obtain ⟨plan, s', path, t, hconvert, hrun, hcomplete⟩ := exists_written hcompletes
  obtain ⟨d, hholds, hiff⟩ := holds_deployable rfl hrun
  refine ⟨.of_outcome (by decide +kernel) (by decide +kernel), plan, s', path, t, hconvert, hrun, d, hholds, ?_⟩
  intro f haccepts
  exact Bool.false_ne_true (hcomplete.mp (hiff.mp (Check.accepts_iff.mp haccepts)))

end MappingFlow.Generation.Linked
