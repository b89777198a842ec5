/-
  MappingFlow.Proofs.Generation.Flow — the script of a converted mapping, block by block.

  All declared sources come first. The steps are those of the transformations that the
  rules know and that do not stand for a source (`written`), in the write order, and each
  is handed the name of the one before it (`Follows`). All sinks read the last of them
  (`lastStream`). `flow_of_plan` says this of every script that is written at all.
-/

import MappingFlow.Proofs.Dataflow.Script
import MappingFlow.Proofs.Generation.WriteOrder

namespace MappingFlow

open Conversion Dataflow Generation Scripted Value Mapping Script
open List

variable {es : List Endpoint} {fss : List Fields}
variable {fs : Fields}

/-! ## Names in order -/

/-- The last of some names, or the one given if there are none. -/
def lastName (previous : String) (ts : List Transformation) : String := (ts.getLast?.map (·.name)).getD previous

@[simp] theorem lastName_nil (previous) : lastName previous [] = previous := rfl

@[simp] theorem lastName_cons (previous t ts) : lastName previous (t :: ts) = lastName t.name ts := by
  cases ts with
  | nil => rfl
  | cons u ts => simp [lastName, getLast?_cons]

namespace Mapping

variable (m : Mapping) (r : Rules)

/-- A transformation that stands for a source has no block. -/
def isWritten (t : Transformation) : Bool :=
  !(m.sources.any (·.name == t.name)) && !((r.kind? t.type).any (·.isOneOf sourceTypes))

/-- The transformations that have a block, in the order of the blocks. -/
def written : List Transformation := (m.writeOrder r).filter (m.isWritten r)

def firstSource : String := (m.sources.head?.map (·.name)).getD ""

/-- The stream that a step reads after the given ones. -/
def streamAfter (ts : List Transformation) : String := lastName m.firstSource ts

/-- The stream that all sinks read. -/
def lastStream : String := nameOr m.firstSource (some (m.streamAfter (m.written r)))

end Mapping

variable {m : Mapping}

/-! ## Steps one after another -/

/-- Each block is that of its transformation, and reads after the one before it. -/
def Follows (m : Mapping) (r : Rules) : String → List Transformation → List Block → Prop
  | _, [], [] => True
  | p, t :: ts, b :: bs => BlockOf m r p t b ∧ Follows m r t.name ts bs
  | _, _, _ => False

namespace Follows

theorem outputs (h : Follows m r p ts bs) : bs.map (·.output) = ts.map (·.name) := by
  induction ts generalizing p bs with
  | nil =>
    cases bs with
    | nil => rfl
    | cons b bs => exact h.elim
  | cons t ts ih =>
    cases bs with
    | nil => exact h.elim
    | cons b bs => rw [map_cons, map_cons, h.1.output, ih h.2]

theorem introduced (h : Follows m r p ts bs) :
    bs.filterMap (·.introduces) = (ts.filter (!r.isSilent ·)).map (·.name) := by
  induction ts generalizing p bs with
  | nil =>
    cases bs with
    | nil => rfl
    | cons b bs => exact h.elim
  | cons t ts ih =>
    cases bs with
    | nil => exact h.elim
    | cons b bs =>
      rw [filterMap_cons, h.1.introduces, ih h.2]
      by_cases hs : r.isSilent t = true <;> simp [hs]

/-- What holds of each block after the blocks before it holds of each step after the steps before it. -/
theorem eachAfter_iff {P : List Block → Block → Prop} {Q : List Transformation → Transformation → Prop}
    (h : Follows m r p ts bs)
    (hpq : ∀ bsBefore b tsBefore t, Follows m r p tsBefore bsBefore → BlockOf m r (lastName p tsBefore) t b →
      (P bsBefore b ↔ Q tsBefore t)) : EachAfter P bs ↔ EachAfter Q ts := by
  induction ts generalizing p bs P Q with
  | nil =>
    cases bs with
    | nil => exact ⟨fun _ => .nil, fun _ => .nil⟩
    | cons b bs => exact h.elim
  | cons t ts ih =>
    cases bs with
    | nil => exact h.elim
    | cons b bs =>
      rw [EachAfter.cons_iff, EachAfter.cons_iff]
      refine and_congr (hpq [] b [] t trivial h.1) (ih h.2 fun bsBefore c tsBefore u hbefore hblock => ?_)
      exact hpq (b :: bsBefore) c (t :: tsBefore) u ⟨h.1, hbefore⟩ (by rwa [lastName_cons])

end Follows

/-- The sources of a mapping as values. -/
def Mapping.sourceNames (m : Mapping) : List Value := m.sources.map fun e => .text e.name

theorem inSet_sourceNames (name) : (text name).inSet m.sourceNames = .ok (m.sources.any (·.name == name)) := by
  have hany : m.sourceNames.any (text name).same = m.sources.any (·.name == name) := by
    rw [sourceNames, any_map]
    refine congrArg m.sources.any (funext fun e => ?_)
    simp only [Function.comp_apply, text_same]
    exact BEq.comm
  exact congrArg Except.ok hany

/-- A step that stands for a source is passed over; any other is written after the one before it. -/
theorem stepParts_follow {ps : Paired} (hps : ps.Match r m) (p earlier) :
    Answers (stepParts m.sourceNames (.text p) earlier ps.steps) fun a =>
      Follows m r p ((ps.map (·.1)).filter (m.isWritten r)) (a.1.map (·.block)) ∧
        a.2 = .text (lastName p ((ps.map (·.1)).filter (m.isWritten r))) := by
  induction ps generalizing p earlier with
  | nil => exact .pure ⟨trivial, rfl⟩
  | cons q ps ih =>
    obtain ⟨type, hkind, hstep⟩ := hps q (.head _)
    have hrest : Paired.Match r m ps := fun q hq => hps q (.tail _ hq)
    refine .bind_ok (field_ok hstep.name) <| .bind_ok (field_ok hstep.type) ?_
    refine .bind_ok (inSet_sourceNames _) ?_
    refine .ite (fun hs => ?_) fun hs => .ite (fun hk => ?_) fun hk => ?_
    · rw [map_cons, filter_cons_of_neg (by simp [isWritten, hs])]
      exact ih hrest p earlier
    · rw [map_cons, filter_cons_of_neg (by simp [isWritten, hkind, hk])]
      exact ih hrest p earlier
    · rw [map_cons, filter_cons_of_pos (by simp [isWritten, hkind, hs, hk])]
      refine .after fun word => .bind (stepBlock_blockOf hstep hkind) fun block hblock => ?_
      refine .bind (ih hrest q.1.name _) fun a ha => .pure ⟨⟨hblock, ha.1⟩, ?_⟩
      rw [ha.2, lastName_cons]

/-! ## Sources and sinks -/

/-- No lookup of a converted mapping is taken for one that reads a file. -/
theorem lookupSources_eq_nil (datasets known) {ps : Paired} (hps : ps.Match r m) :
    Answers (lookupSources datasets known ps.steps) fun files => files = [] := by
  induction ps with
  | nil => exact .pure rfl
  | cons q ps ih =>
    obtain ⟨type, -, hstep⟩ := hps q (.head _)
    have none : Answers (lookupSource datasets known (.object q.2)) fun o => o = none := by
      refine .after fun type => .ite (fun _ => .after fun table => ?_) fun _ => .pure rfl
      have hfile : ((q.2.get? "sourceType").getD (.text "Database")).isText "Flat File" = false := by
        rcases hstep.file with hf | hf <;> rw [hf] <;> rfl
      refine .bind_ok (fieldD_ok rfl) ?_
      rw [hfile, Bool.false_and]
      exact .pure rfl
    refine .bind none fun o ho => ?_
    subst ho
    exact ih fun q hq => hps q (.tail _ hq)

theorem sourceBlock_eq {name : String} (hname : fs.get? "name" = some (.text name))
    (hb : sourceBlock (.object fs) = .ok b) : ∃ columns, b = .source columns name := by
  have hb := of_ok_bind (field_ok hname) hb
  obtain ⟨schema, -, hb⟩ := bind_eq_ok.mp hb
  split at hb
  · obtain ⟨items, -, hb⟩ := bind_eq_ok.mp hb
    obtain ⟨columns, -, hb⟩ := bind_eq_ok.mp hb
    exact ⟨columns, (Except.ok.inj hb).symm⟩
  · obtain ⟨columns, -, hb⟩ := bind_eq_ok.mp hb
    exact ⟨columns, (Except.ok.inj hb).symm⟩

/-- The blocks of sources of the given names. -/
def SourceBlocks (names : List String) (bs : List Block) : Prop :=
  bs.filterMap (·.introduces) = names ∧ ∀ b ∈ bs, b.inputs = []

/-- A source is kept under its name, which is new: a name that was seen before ends the run. -/
theorem eachSource_parts {Q : Endpoint → Value → Prop} {R : Endpoint → Part → Prop}
    (hvs : Forall₂ Q es vs) (hname : ∀ e v, Q e v → v.field "name" = .ok (.text e.name))
    (hpart : ∀ e v, Q e v → Answers (sourcePart datasets v (.text e.name)) (R e))
    (hconnected : ∀ e ∈ es, .text e.name ∈ connected) :
    Answers (eachSource connected (sourcePart datasets) seen vs) fun qs =>
      qs.map (·.1) = es.map (fun e => .text e.name) ∧ Forall₂ R es (qs.map (·.2)) ∧ (es.map (·.name)).Nodup ∧
        ∀ e ∈ es, text e.name ∉ seen := by
  induction hvs generalizing seen with
  | nil => exact .pure ⟨rfl, .nil, .nil, nofun⟩
  | @cons e v es vs hv _ ih =>
    have hany : connected.any (text e.name).same = true :=
      any_eq_true.mpr ⟨_, hconnected e mem_cons_self, same_text.mpr rfl⟩
    refine .bind_ok (hname e v hv) <| .ite (fun _ => .after fun _ => .throw) fun hseen => ?_
    refine .ite (fun hnot => by simp [hany] at hnot) fun _ => .bind (hpart e v hv) fun p hp => ?_
    refine .bind (ih fun d hd => hconnected d (.tail _ hd)) fun qs hqs => ?_
    obtain ⟨hnames, hparts, hnodup, hnew⟩ := hqs
    refine .pure ⟨congrArg (_ :: ·) hnames, .cons hp hparts, nodup_cons.mpr ⟨fun hmem => ?_, hnodup⟩,
      fun d hd hmem => ?_⟩
    · obtain ⟨d, hd, hdname⟩ := mem_map.mp hmem
      exact hnew d hd (mem_append_right _ (mem_singleton.mpr (congrArg text hdname)))
    · rcases mem_cons.mp hd with rfl | hd
      · exact hseen (any_eq_true.mpr ⟨_, hmem, same_text.mpr rfl⟩)
      · exact hnew d hd (mem_append_left _ hmem)

theorem sourceBlocks_of_parts {ps : List Part}
    (h : Forall₂ (fun e p => ∃ columns, p.block = .source columns e.name) es ps) :
    SourceBlocks (es.map (·.name)) (ps.map (·.block)) := by
  induction h with
  | nil => exact ⟨rfl, by simp⟩
  | cons hp _ ih =>
    obtain ⟨columns, hp⟩ := hp
    refine ⟨?_, fun b hb => ?_⟩
    · rw [map_cons, filterMap_cons, hp, map_cons, ih.1]
      rfl
    · rcases mem_cons.mp hb with rfl | hb
      · exact congrArg Block.inputs hp
      · exact ih.2 b hb

theorem forall₂_of_names (hnames : fss.map (·.get? "name") = es.map fun e => some (.text e.name)) :
    Forall₂ (fun e v => ∃ fs : Fields, v = .object fs ∧ fs.get? "name" = some (.text e.name)) es
      (fss.map object) := by
  induction es generalizing fss with
  | nil =>
    rw [map_eq_nil_iff.mp hnames]
    exact .nil
  | cons e es ih =>
    obtain ⟨fs, fss, rfl, hfs, hfss⟩ := map_eq_cons_iff.mp hnames
    exact .cons ⟨fs, rfl, hfs⟩ (ih hfss)

theorem eachSource_blocks (datasets seen) (hnames : fss.map (·.get? "name") = es.map fun e => some (.text e.name))
    (hconnected : ∀ e ∈ es, .text e.name ∈ connected) :
    Answers (eachSource connected (sourcePart datasets) seen (fss.map .object)) fun ps =>
      ps.map (·.1) = es.map (fun e => .text e.name) ∧ SourceBlocks (es.map (·.name)) (ps.map (·.2.block)) := by
  have hname : ∀ (e : Endpoint) (v : Value), (∃ fs : Fields, v = .object fs ∧ fs.get? "name" = some (.text e.name)) →
      v.field "name" = .ok (.text e.name) := by
    rintro e _ ⟨fs, rfl, hfs⟩
    exact field_ok hfs
  refine (eachSource_parts (R := fun e p => ∃ columns, p.block = .source columns e.name) (forall₂_of_names hnames) hname
    ?_ hconnected).imp fun qs hqs => ⟨hqs.1, ?_⟩
  · rintro e _ ⟨fs, rfl, hfs⟩
    exact .after fun _ => .bind (.lift fun _ => sourceBlock_eq hfs) fun b hb => .pure hb
  · have hblocks := sourceBlocks_of_parts hqs.2.1
    rwa [map_map] at hblocks

theorem sinkParts_blocks (datasets previous) (hnames : fss.map (·.get? "name") = es.map fun e => some (.text e.name)) :
    Answers (sinkParts datasets (.text previous) (fss.map .object)) fun ps =>
      ps.map (·.block) = es.map fun e => .sink previous e.name := by
  induction es generalizing fss with
  | nil =>
    rw [map_eq_nil_iff.mp hnames]
    exact .pure rfl
  | cons e es ih =>
    obtain ⟨fs, fss, rfl, hfs, hfss⟩ := map_eq_cons_iff.mp hnames
    have block : sinkBlock (.object fs) (.text previous) = .ok (.sink previous e.name) := by
      rw [sinkBlock, field_ok hfs]
      rfl
    refine .bind_ok (field_ok hfs) <| .after fun _ => .bind_ok block ?_
    refine .bind (ih hfss) fun ps hps => .pure ?_
    rw [map_cons, map_cons, hps]

theorem mapM_hashedName (hnames : fss.map (·.get? "name") = es.map fun e => some (.text e.name)) :
    (fss.map object).mapM hashedName = .ok (es.map fun e => .text e.name) := by
  rw [mapM_eq_ok_iff, forall₂_map_right_iff]
  refine (forall₂_of_names hnames).flip.imp ?_
  rintro _ e ⟨fs, rfl, hfs⟩
  rw [hashedName, field_ok hfs]
  rfl

/-! ## The whole script -/

/-- What the parts of a script are, for the mapping it is made of. -/
structure FlowOf (m : Mapping) (r : Rules) (f : Flow) : Prop where
  sources : SourceBlocks (m.sources.map (·.name)) (f.sources.map (·.block))
  steps : Follows m r m.firstSource (m.written r) (f.steps.map (·.block))
  sinks : f.sinks.map (·.block) = m.targets.map fun e => .sink (m.lastStream r) e.name

section

variable {sources sinks : List Fields}

theorem part_eq (h : fs.get? key = some (.list xs)) :
    part (.object fs) key = .ok (.list xs) := by simp [part, fieldD, Fields.getD, h]

/-- All sources lead somewhere, unless there is neither a step nor a sink. -/
theorem connectedSources_eq (h : PlanOf r m plan sources ps sinks) :
    connectedSources plan false = .ok (if ps = [] ∧ m.targets = [] then [] else m.sourceNames) := by
  have hsinks : sinks = [] ↔ m.targets = [] := by
    rw [← map_eq_nil_iff, h.sinks_named, map_eq_nil_iff]
  obtain ⟨fs, rfl, hfsSources, hfsSteps, hfsSinks⟩ := h.parts
  have habsent : (!(list ps.steps).isPresent && !(list (sinks.map object)).isPresent) = true ↔
      ps = [] ∧ m.targets = [] := by
    rw [← hsinks]
    cases ps <;> cases sinks <;> simp [Paired.steps, isPresent]
  unfold connectedSources
  rw [part_eq hfsSources, part_eq hfsSteps, part_eq hfsSinks]
  change ((sources.map object).mapM hashedName >>= fun names =>
    if (!(list ps.steps).isPresent && !(list (sinks.map object)).isPresent) = true
      then .ok [] else .ok names) = _
  rw [mapM_hashedName h.sources_named]
  by_cases hnone : ps = [] ∧ m.targets = []
  · rw [if_pos hnone]
    exact if_pos (habsent.mpr hnone)
  · rw [if_neg hnone]
    exact if_neg (mt habsent.mp hnone)

theorem firstName_eq (h : parts.map (·.1) = m.sourceNames) (hsources : m.sources ≠ []) :
    firstName parts = .text m.firstSource := by
  unfold firstName firstSource
  cases hm : m.sources with
  | nil => exact absurd hm hsources
  | cons e es =>
    rw [sourceNames, hm] at h
    obtain ⟨q, parts, rfl, hq, -⟩ := map_eq_cons_iff.mp h
    simp [hq]

theorem orderedSteps_eq (hps : ps.Match r m) :
    Answers (orderedSteps ps.steps) fun ordered => ordered = (Paired.sorted m ps).1.steps :=
  .bind_ok (Paired.sortSteps_eq hps) (.ite (fun _ => .after fun _ => .pure rfl) fun _ => .pure rfl)

/-- The sources are declared, no lookup adds one, and the steps are written in the order of the mapping. -/
theorem flow_answers {S : List (Value × Part) → Prop} {Q : Flow → Prop} (h : PlanOf r m plan sources ps sinks)
    (hconnected : connectedSources plan false = .ok connected)
    (hsources : Answers (eachSource connected (sourcePart datasets) [] (sources.map .object)) S)
    (hsteps : ∀ declared, S declared → Answers (stepParts (declared.map (·.1)) (firstName declared) [] (Paired.sorted m ps).1.steps) fun a => Answers (sinkParts datasets (a.2.orElse (firstName declared)) (sinks.map .object)) fun out => Q ⟨declared.map (·.2), a.1, out⟩) :
    Answers (flow datasets plan) Q := by
  obtain ⟨fs, rfl, hfsSources, hfsSteps, hfsSinks⟩ := h.parts
  have items : ∀ xs : List Value, (list xs).items = .ok xs := fun _ => rfl
  refine .bind_ok hconnected <| .bind_ok (part_eq hfsSources) <| .bind_ok (items _) ?_
  refine .bind hsources fun declared hdeclared => .bind_ok (part_eq hfsSteps) <| .bind_ok (items _) ?_
  refine .bind (lookupSources_eq_nil datasets _ h.steps) fun files hfiles => ?_
  refine .bind (orderedSteps_eq h.steps) fun ordered hordered => ?_
  rw [hfiles, hordered, append_nil]
  refine .bind (hsteps declared hdeclared) fun a hsinks => ?_
  exact .bind_ok (part_eq hfsSinks) <| .bind_ok (items _) <| .bind hsinks fun _ hq => .pure hq

theorem eachSource_declared (datasets) (h : PlanOf r m plan sources ps sinks) :
    Answers (eachSource m.sourceNames (sourcePart datasets) [] (sources.map .object)) fun qs =>
      qs.map (·.1) = m.sourceNames ∧ SourceBlocks (m.sources.map (·.name)) (qs.map (·.2.block)) :=
  eachSource_blocks datasets [] h.sources_named fun e he => mem_map.mpr ⟨e, he, rfl⟩

theorem flow_of_plan (datasets) (h : PlanOf r m plan sources ps sinks) (hsources : m.sources ≠ [])
    (htargets : m.targets ≠ []) : Answers (flow datasets plan) (FlowOf m r) := by
  have hconnected := connectedSources_eq h
  rw [if_neg fun hnone => htargets hnone.2] at hconnected
  refine flow_answers h hconnected (eachSource_declared datasets h) fun declared hdeclared => ?_
  rw [hdeclared.1, firstName_eq hdeclared.1 hsources]
  refine (stepParts_follow (Paired.sorted_match h.steps) _ _).imp fun a ha => ?_
  rw [Paired.sorted_fst h.known] at ha
  have hlast : a.2.orElse (.text m.firstSource) = .text (m.lastStream r) := by
    rw [ha.2]
    exact orElse_text (some _) _
  rw [hlast]
  refine (sinkParts_blocks datasets _ h.sinks_named).imp fun out hsinks => ⟨?_, ha.1, hsinks⟩
  rw [map_map]
  exact hdeclared.2

end

/-- The mapping is converted by the rules, and the script is made of the result. -/
def ScriptOf (r : Rules) (m : Mapping) (f : Flow) : Prop :=
  ∃ datasets s plan s' g g', Runs (convertMapping r m) s plan s' ∧ Runs (flow datasets plan) g f g'

theorem ScriptOf.flowOf (h : ScriptOf r m f) (haccept : Review.Accepts m) : FlowOf m r f := by
  obtain ⟨datasets, s, plan, s', g, g', hconvert, hflow⟩ := h
  obtain ⟨sources, ps, sinks, hplan⟩ := convertMapping_plan hconvert
  exact flow_of_plan datasets hplan haccept.sources_ne haccept.targets_ne g f g' hflow

theorem Flow.blocks_eq (f : Flow) :
    f.blocks = f.sources.map (·.block) ++ f.steps.map (·.block) ++ f.sinks.map (·.block) := by
  rw [Flow.blocks, map_append, map_append]

/-- The blocks of the sources, the steps and the sinks of a mapping's script, if it has one. -/
def blocks? (r : Rules) (m : Mapping) : Option (List Block × List Block × List Block) := do
  let plan ← (outcome (convertMapping r m) .start).1.toOption
  let f ← (outcome (flow .standard plan) (.start .empty)).1.toOption
  return (f.sources.map (·.block), f.steps.map (·.block), f.sinks.map (·.block))

theorem exists_scriptOf {sources steps sinks : List Block} (h : blocks? r m = some (sources, steps, sinks)) :
    ∃ f, ScriptOf r m f ∧ f.sources.map (·.block) = sources ∧ f.steps.map (·.block) = steps ∧
      f.sinks.map (·.block) = sinks := by
  obtain ⟨plan, hplan, h⟩ := Option.bind_eq_some_iff.mp h
  obtain ⟨f, hf, h⟩ := Option.bind_eq_some_iff.mp h
  have hscript : ScriptOf r m f := ⟨_, _, plan, _, _, _, Runs.of_toOption hplan, Runs.of_toOption hf⟩
  obtain ⟨hsources, hrest⟩ := Prod.mk.inj (Option.some.inj h)
  exact ⟨f, hscript, hsources, Prod.mk.inj hrest⟩

end MappingFlow
