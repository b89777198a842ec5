/-
  MappingFlow.Proofs.Generation.Parts — what the script of any structure is made of.

  A structure need not come from a mapping: its members may have any shape and its names
  may be any values. If a script is written at all, its parts are told by the structure.
  The sources come first, and their names are distinct texts: those of the declared sources
  and of the files that lookups read (`sourceNamesOf`). Then each step that stands for no
  source has one part, in an order of its own (`ownSteps`), and last each sink has one.
-/

import MappingFlow.Proofs.Dataflow.Check
import MappingFlow.Proofs.Generation.Flow

namespace MappingFlow

open Conversion Dataflow Generation Scripted Script Value
open List

variable {xs ns sinks vs : List Value}

/-! ## What a structure says -/

def stepsOf (plan : Value) : List Value := plan.memberList "transformations"

def sinksOf (plan : Value) : List Value := plan.memberList "sinks"

/-- A lookup that reads a file. -/
def readsFlatFile (step : Value) : Bool :=
  (step.member "type").isOneOf ["Lookup", "lookup"] && (step.member "sourceType").isText "Flat File" &&
    (step.member "lookupDataset").isPresent

/-- The files that lookups read. -/
def filesRead (steps : List Value) : List Value := (steps.filter readsFlatFile).map (·.member "lookupDataset")

/-- The names of the sources: those declared, and the files that lookups read. -/
def sourceNamesOf (plan : Value) : List Value :=
  givenNames (plan.memberList "sources") ++ filesRead (stepsOf plan)

/-- Neither the name nor the type of the step is that of a source. -/
def isOwnStep (names : List Value) (step : Value) : Bool :=
  !names.any (step.member "name").same && !(step.member "type").isOneOf sourceTypes

/-- The steps that stand for no source. -/
def ownSteps (plan : Value) : List Value := (stepsOf plan).filter (isOwnStep (sourceNamesOf plan))

/-! ## Parts of a script -/

/-- The part of the source of that name. -/
structure IsSourcePart (s : String) (p : Part) : Prop where
  name : p.entry.member "name" = .text s
  block : ∃ columns, p.block = .source columns s

/-- The part of the step: it has its name, and its block was made of it. -/
structure IsStepPart (step : Value) (p : Part) : Prop where
  name : p.entry.member "name" = step.member "name"
  block : ∃ previous earlier g g', Runs (stepBlock step previous earlier) g p.block g'

structure IsSinkPart (sink : Value) (p : Part) : Prop where
  name : p.entry.member "name" = sink.member "name"
  block : ∃ input, p.block = .sink input (sink.member "name").display

/-! ## The members of a structure -/

variable {datasets : DatasetNames} {plan v : Value} {connected seen ss steps : List Value} {names known : List String}

/-- Members that have a name each are members of a list. -/
theorem memberList_of_part (hpart : part plan key = .ok v) (hitems : v.items = .ok xs)
    (hnamed : ∀ x ∈ xs, ∃ name, x.field "name" = .ok name) : plan.memberList key = xs := by
  have untexted : ∀ {α : Type} {f : α → String} {as : List α}, xs = as.map (fun a => .text (f a)) → xs = [] := by
    intro α f as hxs
    cases as with
    | nil => exact hxs
    | cons a as =>
      obtain ⟨name, hname⟩ := hnamed (.text (f a)) (by simp [hxs])
      cases hname
  cases plan with
  | object fs =>
    cases hpart
    unfold Fields.getD at hitems
    simp only [memberList, member, Fields.getD]
    cases hget : Fields.get? fs key with
    | none =>
      rw [hget] at hitems
      cases hitems
      rfl
    | some w =>
      rw [hget] at hitems
      cases w with
      | list ws =>
        cases hitems
        rfl
      | object | text => exact (untexted (Except.ok.inj hitems).symm).symm
      | _ => cases hitems
  | _ => cases hpart

theorem mapM_hashedName_named (h : ss.mapM hashedName = .ok ns) :
    (∀ s ∈ ss, ∃ name, Named s name) ∧ givenNames ss = ns := by
  have hnamed := (mapM_eq_ok_iff.mp h).imp fun s n (hn : hashedName s = .ok n) =>
    (by
      simp only [hashedName, bind_eq_ok] at hn
      obtain ⟨_, hname, _, hkey, hn⟩ := hn
      cases hn
      exact ⟨hname, hkey⟩ : Named s n)
  refine ⟨fun s hs => ?_, map_id ns ▸ map_eq_of_forall₂ hnamed fun s n hn => member_of_field hn.1⟩
  obtain ⟨n, -, hn⟩ := exists_of_mem_left hnamed hs
  exact ⟨n, hn⟩

theorem hashable_givenNames (hnamed : ∀ s ∈ ss, ∃ name, Named s name) :
    ∀ n ∈ givenNames ss, n.requireHashable = .ok () := by
  intro n hn
  obtain ⟨s, hs, rfl⟩ := mem_map.mp hn
  obtain ⟨name, hname, hkey⟩ := hnamed s hs
  rwa [member_of_field hname]

theorem items_eq_nil (hitems : v.items = .ok xs) (habsent : v.isPresent = false) : xs = [] := by
  refine List.isEmpty_iff.mp ((items_isEmpty hitems).trans ?_)
  rw [habsent]
  rfl

/-- Sources lead somewhere all together, unless there is neither a step nor a sink. -/
theorem connectedSources_named (h : connectedSources plan andSteps = .ok connected)
    (hpart : part plan "sources" = .ok v) (hitems : v.items = .ok ss)
    (hstepsPart : part plan "transformations" = .ok w) (hstepsItems : w.items = .ok steps)
    (hsinksPart : part plan "sinks" = .ok x) (hsinksItems : x.items = .ok sinks) :
    (∀ s ∈ ss, ∃ name, Named s name) ∧ (connected = givenNames ss ∨ steps = [] ∧ sinks = []) := by
  obtain ⟨_, hv, h⟩ := bind_eq_ok.mp h
  cases hpart.symm.trans hv
  have h := of_ok_bind hitems h
  obtain ⟨ns, hns, h⟩ := bind_eq_ok.mp h
  obtain ⟨hnamed, rfl⟩ := mapM_hashedName_named hns
  have h := of_ok_bind hstepsPart h
  have h := of_ok_bind hsinksPart h
  refine ⟨hnamed, ?_⟩
  split at h
  · rename_i habsent
    rw [Bool.and_eq_true, Bool.not_eq_true', Bool.not_eq_true'] at habsent
    exact .inr ⟨items_eq_nil hstepsItems habsent.1, items_eq_nil hsinksItems habsent.2⟩
  · refine .inl ?_
    cases andSteps with
    | false => cases h; rfl
    | true =>
      obtain ⟨_, -, h⟩ := bind_eq_ok.mp h
      obtain ⟨_, -, h⟩ := bind_eq_ok.mp h
      cases h
      rfl

/-- A name that is not even the same as itself makes no difference to what is among the names. -/
theorem any_filter_same (hkeys : ∀ n ∈ ns, n.requireHashable = .ok ()) (v : Value) :
    (ns.filter fun n => ns.any n.same).any v.same = ns.any v.same := by
  rw [Bool.eq_iff_iff, any_filter, any_eq_true, any_eq_true]
  refine exists_congr fun n => and_congr_right fun hn => ?_
  rw [Bool.and_eq_true]
  exact and_iff_right_of_imp fun hsame => any_eq_true.mpr ⟨n, hn, same_self (hkeys n hn) hsame⟩

/-! ## Sources -/

/-- Only a text names the dataset of a source. -/
theorem text_of_datasetName (h : datasets.name v true = .ok dataset) : ∃ s, v = .text s := by
  obtain ⟨held, -, h⟩ := bind_eq_ok.mp h
  cases v with
  | text s => exact ⟨s, rfl⟩
  | _ =>
    cases held with
    | false =>
      obtain ⟨s, hs, -⟩ := bind_eq_ok.mp h
      cases hs
    | true =>
      obtain ⟨table⟩ := datasets
      cases table <;> cases h

theorem sourcePart_spec (hname : v.field "name" = .ok name) :
    Answers (sourcePart datasets v name) fun p => ∃ s, name = .text s ∧ IsSourcePart s p := by
  refine .bind (.lift fun _ => text_of_datasetName) fun dataset hdataset => ?_
  obtain ⟨s, rfl⟩ := hdataset
  obtain ⟨fs, rfl, hget⟩ := field_eq_ok_iff.mp hname
  refine .bind (.lift fun _ => sourceBlock_eq hget) fun block hblock => .pure ⟨s, rfl, rfl, hblock⟩

/-- The sources that are connected are kept, in order, under names that are new each. -/
theorem eachSource_spec : Answers (eachSource connected (sourcePart datasets) seen ss) fun qs => ∃ names : List String,
      qs.map (·.1) = names.map .text ∧ Forall₂ IsSourcePart names (qs.map (·.2)) ∧
        names.map .text = (givenNames ss).filter (fun n => connected.any n.same) ∧
        names.Nodup ∧ ∀ s ∈ names, Value.text s ∉ seen := by
  induction ss generalizing seen with
  | nil => exact .pure ⟨[], rfl, .nil, rfl, .nil, nofun⟩
  | cons v ss ih =>
    refine .bind (.lift fun name hname => hname) fun name hname => ?_
    rw [givenNames_cons hname]
    refine .ite (fun _ => .after fun _ => .throw) fun hseen => .ite (fun hnot => ?_) fun hconn => ?_
    · rw [filter_cons_of_neg (by simpa using hnot)]
      exact .after fun _ => ih
    · rw [filter_cons_of_pos (by simpa using hconn)]
      refine .bind (sourcePart_spec hname) fun p hp => .bind ih fun qs hqs => .pure ?_
      obtain ⟨s, rfl, hp⟩ := hp
      obtain ⟨names, hnames, hparts, hfilter, hnodup, hnew⟩ := hqs
      refine ⟨s :: names, congrArg (_ :: ·) hnames, .cons hp hparts, congrArg (_ :: ·) hfilter,
        nodup_cons.mpr ⟨fun hmem => ?_, hnodup⟩, forall_mem_cons.mpr ⟨fun hmem => ?_, fun t ht hmem => ?_⟩⟩
      · exact hnew s hmem (mem_append_right _ (mem_singleton.mpr rfl))
      · exact hseen (any_eq_true.mpr ⟨_, hmem, same_text.mpr rfl⟩)
      · exact hnew t ht (mem_append_left _ hmem)

theorem inSet_texts (h : v.inSet (known.map .text) = .ok held) : held ↔ ∃ s ∈ known, v = .text s := by
  obtain ⟨⟨⟩, -, h⟩ := bind_eq_ok.mp h
  cases h
  rw [any_map, any_eq_true]
  exact exists_congr fun s => and_congr_right fun _ => same_text

/-- A file becomes a source unless there is one of its name. -/
theorem lookupSource_spec : Answers (lookupSource datasets (known.map .text) step) fun o =>
      if readsFlatFile step then (o = none ∧ ∃ s ∈ known, step.member "lookupDataset" = .text s) ∨
          ∃ s p, o = some (.text s, p) ∧ step.member "lookupDataset" = .text s ∧ s ∉ known ∧ IsSourcePart s p
      else o = none := by
  cases step with
  | object fs =>
    have hkind : (Fields.getD fs "sourceType" (.text "Database")).isText "Flat File" =
        ((object fs).member "sourceType").isText "Flat File" := by
      simp only [member, Fields.getD]
      cases Fields.get? fs "sourceType" <;> rfl
    have hreads : readsFlatFile (.object fs) ↔ ((object fs).member "type").isOneOf ["Lookup", "lookup"] ∧
        ((Fields.getD fs "sourceType" (.text "Database")).isText "Flat File" &&
          ((object fs).member "lookupDataset").isPresent) := by
      rw [readsFlatFile, Bool.and_assoc, Bool.and_eq_true, hkind]
    refine .bind_ok (fieldD_ok rfl) <| .ite (fun htype => .bind_ok (fieldD_ok rfl) <| .bind_ok (fieldD_ok rfl) <|
      .ite (fun hfile => ?_) fun hfile => .pure ?_) fun htype => .pure ?_
    · simp only [if_pos (hreads.mpr ⟨htype, hfile⟩)]
      refine .bind (.lift fun _ h => h) fun held hheld => .ite (fun hin => ?_) fun hin => ?_
      · exact .pure (.inl ⟨rfl, (inSet_texts hheld).mp hin⟩)
      · refine .bind (.lift fun _ => text_of_datasetName) fun dataset hdataset => ?_
        obtain ⟨s, hs⟩ := hdataset
        rw [hs]
        refine .pure (.inr ⟨s, _, rfl, hs, fun hmem => hin ((inSet_texts hheld).mpr ⟨s, hmem, hs⟩), rfl, [], rfl⟩)
    · rw [if_neg fun h => hfile (hreads.mp h).2]
    · rw [if_neg fun h => htype (hreads.mp h).1]
  | _ => exact .bind (Q := fun _ => False) (.lift fun _ h => by cases h) fun _ h => h.elim

/-- The files that are read become sources under names that are new each. -/
theorem lookupSources_spec : Answers (lookupSources datasets (known.map .text) steps) fun qs => ∃ names : List String,
      qs.map (·.1) = names.map .text ∧ Forall₂ IsSourcePart names (qs.map (·.2)) ∧
        names.Nodup ∧ (∀ s ∈ names, s ∉ known ∧ .text s ∈ filesRead steps) ∧
        ∀ w ∈ filesRead steps, ∃ s ∈ known ++ names, w = .text s := by
  induction steps generalizing known with
  | nil => exact .pure ⟨[], rfl, .nil, .nil, nofun, nofun⟩
  | cons step steps ih =>
    refine .bind lookupSource_spec fun o ho => ?_
    split at ho
    · rename_i hreads
      have hfiles : filesRead (step :: steps) = step.member "lookupDataset" :: filesRead steps := by
        rw [filesRead, filter_cons_of_pos hreads]
        rfl
      rw [hfiles]
      rcases ho with ⟨rfl, s, hs, htable⟩ | ⟨s, p, rfl, htable, hnew, hp⟩
      · refine ih.imp fun qs hqs => ?_
        obtain ⟨names, hnames, hparts, hnodup, hfresh, hall⟩ := hqs
        refine ⟨names, hnames, hparts, hnodup, fun t ht => ⟨(hfresh t ht).1, mem_cons_of_mem _ (hfresh t ht).2⟩, ?_⟩
        exact forall_mem_cons.mpr ⟨⟨s, mem_append_left _ hs, htable⟩, hall⟩
      · have hrest := @ih (known ++ [s])
        rw [map_append] at hrest
        refine .bind hrest fun qs hqs => .pure ?_
        obtain ⟨names, hnames, hparts, hnodup, hfresh, hall⟩ := hqs
        refine ⟨s :: names, congrArg (_ :: ·) hnames, .cons hp hparts, nodup_cons.mpr ⟨fun hmem => ?_, hnodup⟩, ?_, ?_⟩
        · exact (hfresh s hmem).1 (mem_append_right _ (mem_singleton.mpr rfl))
        · refine forall_mem_cons.mpr ⟨⟨hnew, by simp [htable]⟩, fun t ht => ?_⟩
          exact ⟨fun hmem => (hfresh t ht).1 (mem_append_left _ hmem), mem_cons_of_mem _ (hfresh t ht).2⟩
        · refine forall_mem_cons.mpr ⟨⟨s, by simp, htable⟩, fun w hw => ?_⟩
          obtain ⟨t, ht, rfl⟩ := hall w hw
          exact ⟨t, by simpa [or_assoc] using ht, rfl⟩
    · rename_i hreads
      have hfiles : filesRead (step :: steps) = filesRead steps := by
        rw [filesRead, filter_cons_of_neg hreads]
        rfl
      subst ho
      rw [hfiles]
      exact ih

/-! ## Steps and sinks -/

theorem orderedSteps_spec :
    Answers (orderedSteps steps) fun ordered => (∀ step ∈ steps, ∃ name, Named step name) ∧ steps.Perm ordered := by
  refine .bind (.lift fun a h => Order.sortSteps_perm (show Order.sortSteps steps = .ok (a.1, a.2) from h)) fun a ha => ?_
  exact .ite (fun _ => .after fun _ => .pure ha) fun _ => .pure ha

theorem inSet_eq (h : v.inSet vs = .ok held) : held = vs.any v.same := by
  obtain ⟨⟨⟩, -, h⟩ := bind_eq_ok.mp h
  exact (Except.ok.inj h).symm

/-- Steps that stand for a source are passed over; the others have a part each, in order. -/
theorem stepParts_spec : Answers (stepParts sources previous earlier steps) fun a =>
      Forall₂ IsStepPart (steps.filter (isOwnStep sources)) a.1 := by
  induction steps generalizing previous earlier with
  | nil => exact .pure .nil
  | cons step steps ih =>
    refine .bind (.lift fun _ h => h) fun name hname => .bind (.lift fun _ h => h) fun type htype => ?_
    refine .bind (.lift fun _ h => inSet_eq h) fun held hheld => ?_
    subst hheld
    have hown : isOwnStep sources step = (!sources.any name.same && !type.isOneOf sourceTypes) := by
      rw [isOwnStep, member_of_field hname, member_of_field htype]
    refine .ite (fun hs => ?_) fun hs => .ite (fun ht => ?_) fun ht => ?_
    · rw [filter_cons_of_neg (by simp [hown, hs])]
      exact ih
    · rw [filter_cons_of_neg (by simp [hown, ht])]
      exact ih
    · rw [filter_cons_of_pos (by simp [hown, hs, ht])]
      have hmade : Answers (stepBlock step previous earlier) fun b =>
          ∃ previous earlier g g', Runs (stepBlock step previous earlier) g b g' := fun g b g' hrun =>
        ⟨previous, earlier, g, g', hrun⟩
      refine .after fun word => .bind hmade fun block hblock => ?_
      exact .bind ih fun a ha => .pure (.cons ⟨(member_of_field hname).symm, hblock⟩ ha)

theorem sinkParts_spec : Answers (sinkParts datasets previous sinks) fun ps =>
      (∀ sink ∈ sinks, ∃ name, sink.field "name" = .ok name) ∧ Forall₂ IsSinkPart sinks ps := by
  induction sinks with
  | nil => exact .pure ⟨nofun, .nil⟩
  | cons sink sinks ih =>
    refine .bind (.lift fun _ h => h) fun name hname => .after fun dataset => ?_
    have hblock : sinkBlock sink previous = .ok (.sink previous.display name.display) := by
      rw [sinkBlock, hname]
      rfl
    refine .bind_ok hblock <| .bind ih fun ps hps => .pure ⟨forall_mem_cons.mpr ⟨⟨name, hname⟩, hps.1⟩, .cons ?_ hps.2⟩
    rw [← member_of_field hname]
    exact ⟨rfl, _, rfl⟩

/-! ## The whole script -/

/-- What a script is made of: the sources of these names, these steps in this order, and the sinks. -/
structure MadeOf (plan : Value) (f : Flow) (names : List String) (ordered : List Value) : Prop where
  sources : Forall₂ IsSourcePart names f.sources
  distinct : names.Nodup
  /-- Without a step or a sink there is no source either. -/
  named : stepsOf plan ≠ [] ∨ sinksOf plan ≠ [] → ∀ s, s ∈ names ↔ Value.text s ∈ sourceNamesOf plan
  perm : (ownSteps plan).Perm ordered
  steps : Forall₂ IsStepPart ordered f.steps
  sinks : Forall₂ IsSinkPart (sinksOf plan) f.sinks

theorem any_same_text : vs.any (Value.text s).same ↔ .text s ∈ vs := by
  rw [any_eq_true]
  constructor
  · rintro ⟨w, hw, hsame⟩
    rw [same_comm rfl] at hsame
    exact same_text.mp hsame ▸ hw
  · exact fun hmem => ⟨_, hmem, same_text.mpr rfl⟩

/-- The sources that were kept and those that were added are all that a structure names. -/
theorem any_sources
    (hknown : (known.map Value.text).any v.same = ns.any v.same) (hfresh : ∀ s ∈ added, Value.text s ∈ files)
    (hread : ∀ w ∈ files, ∃ s ∈ known ++ added, w = .text s) :
    ((known ++ added).map Value.text).any v.same = (ns ++ files).any v.same := by
  rw [map_append, any_append, any_append, hknown, Bool.eq_iff_iff, Bool.or_eq_true, Bool.or_eq_true]
  refine ⟨Or.imp_right fun hadded => ?_, fun h => h.elim .inl fun hfiles => ?_⟩
  · obtain ⟨w, hw, hsame⟩ := any_eq_true.mp hadded
    obtain ⟨s, hs, rfl⟩ := mem_map.mp hw
    exact any_eq_true.mpr ⟨_, hfresh s hs, hsame⟩
  · obtain ⟨w, hw, hsame⟩ := any_eq_true.mp hfiles
    obtain ⟨s, hs, rfl⟩ := hread w hw
    rw [← hknown, ← Bool.or_eq_true, ← any_append, ← map_append]
    exact any_eq_true.mpr ⟨_, mem_map.mpr ⟨s, hs, rfl⟩, hsame⟩

theorem flow_madeOf : Answers (flow datasets plan) fun f => ∃ names ordered, MadeOf plan f names ordered := by
  refine .bind (.lift fun _ h => h) fun connected hconnected => .bind (.lift fun _ h => h) fun v hpart => ?_
  refine .bind (.lift fun _ h => h) fun ss hitems => .bind eachSource_spec fun declared hdeclared => ?_
  refine .bind (.lift fun _ h => h) fun w hstepsPart => .bind (.lift fun _ h => h) fun steps hstepsItems => ?_
  obtain ⟨known, hknown, hknownParts, hfilter, hknownNodup, -⟩ := hdeclared
  rw [hknown]
  refine .bind lookupSources_spec fun files hfiles => ?_
  obtain ⟨added, hadded, haddedParts, haddedNodup, hfresh, hread⟩ := hfiles
  have hnames : (declared ++ files).map (·.1) = (known ++ added).map .text := by
    rw [map_append, map_append, hknown, hadded]
  refine .bind orderedSteps_spec fun ordered hordered => ?_
  rw [hnames]
  refine .bind stepParts_spec fun a hparts => .bind (.lift fun _ h => h) fun x hsinksPart => ?_
  obtain ⟨parts, last⟩ := a
  refine .bind (.lift fun _ h => h) fun sinks hsinksItems => .bind sinkParts_spec fun sinkPs hsinks => .pure ?_
  obtain ⟨hnamed, hconnected⟩ :=
    connectedSources_named hconnected hpart hitems hstepsPart hstepsItems hsinksPart hsinksItems
  have hss : plan.memberList "sources" = ss := memberList_of_part hpart hitems fun s hs => (hnamed s hs).imp fun _ => And.left
  have hsteps : stepsOf plan = steps :=
    memberList_of_part hstepsPart hstepsItems fun s hs => (hordered.1 s hs).imp fun _ => And.left
  have hsinksOf : sinksOf plan = sinks := memberList_of_part hsinksPart hsinksItems hsinks.1
  have hany : steps ≠ [] ∨ sinks ≠ [] → ∀ v : Value,
      ((known ++ added).map Value.text).any v.same = (sourceNamesOf plan).any v.same := by
    intro hsome v
    rcases hconnected with rfl | ⟨hnoSteps, hnoSinks⟩
    · rw [sourceNamesOf, hss, hsteps]
      refine any_sources ?_ (fun s hs => (hfresh s hs).2) hread
      rw [hfilter, any_filter_same (hashable_givenNames hnamed)]
    · exact absurd hsome (by simp [hnoSteps, hnoSinks])
  have hown : ownSteps plan = steps.filter (isOwnStep ((known ++ added).map .text)) := by
    rw [ownSteps, hsteps]
    refine filter_congr fun step hstep => ?_
    rw [isOwnStep, isOwnStep, hany (.inl (ne_nil_of_mem hstep))]
  refine ⟨known ++ added, _, ⟨?_, ?_, fun hsome s => ?_, hown ▸ hordered.2.filter _, hparts, hsinksOf ▸ hsinks.2⟩⟩
  · rw [map_append]
    exact rel_append hknownParts haddedParts
  · refine nodup_append.mpr ⟨hknownNodup, haddedNodup, ?_⟩
    rintro s hs _ ht rfl
    exact (hfresh s ht).1 hs
  · rw [hsteps, hsinksOf] at hsome
    rw [← any_same_text, ← hany hsome, any_same_text, mem_map_of_injective fun _ _ => text.inj]

end MappingFlow
