/-
  MappingFlow.Proofs.Generation.Sources — the sources that a script begins with.

  If a mapping has a step or a target, each of its sources has one part in the script, in
  order, with its name and all its columns (`ScriptOf.sources`); if it has neither, no
  source is written. Nothing is added for the file that a lookup reads: conversion calls
  the file by its format, and a source would be added only for what is still called a
  file. So the table of such a lookup has a source exactly if it is declared already
  (`fileLookups_supplied_iff`).
-/

import MappingFlow.Proofs.Generation.References

namespace MappingFlow

open Conversion Dataflow Generation Scripted
open List

variable {r : Rules} {m : Mapping} {f : Flow}

/-! ## From a declared source to its part -/

/-- The column of a source block that stands for a declared column. -/
structure TypedAs (r : Rules) (c : Column) (column : String × String) : Prop where
  name : column.1 = c.name
  type : ∃ type, r.datatype c.datatype = .ok type ∧ Script.scriptType type = .ok column.2

/-- The document of a declared source. -/
structure IsConverted (r : Rules) (e : Endpoint) (v : Value) : Prop where
  name : v.field "name" = .ok (.text e.name)
  schema : ∃ schema, e.columns.mapM (schemaColumn r) = .ok schema ∧ v.fieldD "schema" (.list []) = .ok (.list schema)

/-- The part of the script that stands for a declared source. -/
structure DeclaredBy (r : Rules) (e : Endpoint) (p : Part) : Prop where
  name : p.entry.member "name" = .text e.name
  block : ∃ columns, p.block = .source columns e.name ∧ Forall₂ (TypedAs r) e.columns columns

theorem schemaColumn_typedAs (hv : schemaColumn r c = .ok v)
    (hcolumn : Script.schemaColumn v = .ok column) : TypedAs r c column := by
  obtain ⟨type, htype, hv⟩ := bind_eq_ok.mp hv
  cases hv
  have hcolumn := of_ok_bind (Script.fieldD_ok rfl) hcolumn
  have hcolumn := of_ok_bind (Script.fieldD_ok rfl) hcolumn
  obtain ⟨word, hword, hcolumn⟩ := bind_eq_ok.mp hcolumn
  cases hcolumn
  exact ⟨rfl, type, htype, hword⟩

theorem IsConverted.sourceBlock (h : IsConverted r e v) (hb : Script.sourceBlock v = .ok b) :
    ∃ columns, b = .source columns e.name ∧ Forall₂ (TypedAs r) e.columns columns := by
  obtain ⟨schema, hschema, hfield⟩ := h.schema
  have hcolumns := mapM_eq_ok_iff.mp hschema
  have hb := of_ok_bind h.name hb
  have hb := of_ok_bind hfield hb
  cases schema with
  | nil => exact ⟨[], (Except.ok.inj hb).symm, forall₂_nil_right_iff.mp hcolumns ▸ .nil⟩
  | cons v schema =>
    have hitems : (Value.list (v :: schema)).items = .ok (v :: schema) := rfl
    have hb := of_ok_bind hitems hb
    obtain ⟨columns, hread, hb⟩ := bind_eq_ok.mp hb
    refine ⟨columns, (Except.ok.inj hb).symm, forall₂_trans ?_ hcolumns (mapM_eq_ok_iff.mp hread)⟩
    exact fun c v column hv hcolumn => schemaColumn_typedAs hv hcolumn

theorem convertEndpoints_converted (kind es) :
    Answers (convertEndpoints (convertEndpoint r kind) es) (Forall₂ (IsConverted r) es) := by
  induction es with
  | nil => exact .pure .nil
  | cons e es ih =>
    have one : Answers (convertEndpoint r kind e) (IsConverted r e) :=
      .bind (.lift fun _ h => h) fun schema hschema => .pure ⟨rfl, schema, hschema, rfl⟩
    exact .bind one fun _ hv => .bind ih fun _ hvs => .pure (.cons hv hvs)

theorem convertMapping_sources (h : Runs (convertMapping r m) s plan s') :
    ∃ vs, plan.member "sources" = .list vs ∧ Forall₂ (IsConverted r) m.sources vs := by
  suffices hall : Answers (convertMapping r m) fun plan =>
      ∃ vs, plan.member "sources" = .list vs ∧ Forall₂ (IsConverted r) m.sources vs from hall s plan s' h
  refine .after fun _ => .after fun _ => .after fun _ => .bind (convertEndpoints_converted _ _) fun vs hvs => ?_
  exact .after fun _ => .after fun _ => .after fun _ => .pure ⟨vs, rfl, hvs⟩

/-! ## All sources of a script -/

variable {seen : List Value}

theorem sourcePart_declared (h : IsConverted r e v) : Answers (sourcePart datasets v (.text e.name)) (DeclaredBy r e) :=
  .after fun _ => .bind (.lift fun _ => h.sourceBlock) fun _ hblock => .pure ⟨rfl, hblock⟩

theorem eachSource_unconnected : Answers (eachSource [] (sourcePart datasets) seen vs) fun qs => qs = [] := by
  induction vs with
  | nil => exact .pure rfl
  | cons v vs ih => exact .after fun _ => .ite (fun _ => .after fun _ => .throw) fun _ => .after fun _ => ih

theorem ScriptOf.sources (h : ScriptOf r m f) (hused : m.known r ≠ [] ∨ m.targets ≠ []) :
    Forall₂ (DeclaredBy r) m.sources f.sources ∧ (m.sources.map (·.name)).Nodup := by
  obtain ⟨datasets, s, plan, s', g, g', hconvert, hflow⟩ := h
  obtain ⟨sources, ps, sinks, hplan⟩ := convertMapping_plan hconvert
  obtain ⟨vs, hvs, hconverted⟩ := convertMapping_sources hconvert
  obtain rfl : sources.map .object = vs := by
    obtain ⟨fs, rfl, hfs, -⟩ := hplan.parts
    exact Value.list.inj ((member_of_get? hfs).symm.trans hvs)
  have hconnected := connectedSources_eq hplan
  have hsome : ¬(ps = [] ∧ m.targets = []) := by
    rintro ⟨rfl, htargets⟩
    exact hused.elim (fun hne => hne hplan.known.symm) fun hne => hne htargets
  rw [if_neg hsome] at hconnected
  have hmem : ∀ e ∈ m.sources, Value.text e.name ∈ m.sourceNames := fun e he => mem_map.mpr ⟨e, he, rfl⟩
  refine flow_answers (Q := fun f => Forall₂ (DeclaredBy r) m.sources f.sources ∧ _) hplan hconnected
    (eachSource_parts hconverted (fun _ _ hv => hv.name) (fun _ _ => sourcePart_declared) hmem) ?_ g f g' hflow
  -- The steps and sinks of a script do not change its sources.
  exact fun declared hdeclared _ _ _ _ _ _ _ _ => ⟨hdeclared.2.1, hdeclared.2.2.1⟩

/-- Sources that lead nowhere are left out. -/
theorem ScriptOf.sources_eq_nil (h : ScriptOf r m f) (hknown : m.known r = []) (htargets : m.targets = []) :
    f.sources = [] := by
  obtain ⟨datasets, s, plan, s', g, g', hconvert, hflow⟩ := h
  obtain ⟨sources, ps, sinks, hplan⟩ := convertMapping_plan hconvert
  have hps : ps = [] := map_eq_nil_iff.mp (hplan.known.trans hknown)
  have hconnected := connectedSources_eq hplan
  rw [if_pos ⟨hps, htargets⟩] at hconnected
  refine flow_answers (Q := (·.sources = [])) hplan hconnected eachSource_unconnected ?_ g f g' hflow
  rintro _ rfl _ _ _ _ _ _ _ _
  rfl

/-! ## Files that lookups read -/

/-- The names of the sources that a data flow lists. -/
def listedSources (dataflow : Value) : List Value :=
  match ((dataflow.member "properties").member "typeProperties").member "sources" with
  | .list entries => entries.map (·.member "name")
  | _ => []

/-- The table is listed once as a source, and the block of that source stands before the lookup. -/
structure Supplies (f : Flow) (table : Value) (lookup : String) : Prop where
  listed : ∀ name description, (listedSources (document name description f)).countP table.same = 1
  block : ∃ before b after, f.blocks = before ++ b :: after ∧ b.operation = "source(" ∧
    b.Introduces table.display ∧ ∀ c ∈ before, c.operation = "lookup(" → c.output ≠ lookup

/-- The table that a lookup names. -/
def lookupTable (t : Transformation) : Value := property t "lookup_table" .null

def readsFile (t : Transformation) : Bool :=
  isLookup t && (property t "source_type" (.text "Database")).isText "Flat File" && (lookupTable t).isPresent

theorem listedSources_document (h : Forall₂ (DeclaredBy r) es f.sources) (name)
    (description : Value) : listedSources (document name description f) = es.map fun e => .text e.name := by
  change (f.sources.map (·.entry)).map (·.member "name") = _
  rw [map_map]
  exact (map_eq_of_forall₂ h fun e p hp => hp.name.symm).symm

theorem supplies_iff (h : ScriptOf r m f) (hknown : m.known r ≠ []) (table : Value) (lookup) :
    Supplies f table lookup ↔ ∃ e ∈ m.sources, table = .text e.name := by
  obtain ⟨hparts, hnodup⟩ := h.sources (.inl hknown)
  constructor
  · intro hs
    have hlisted := hs.listed "" .null
    rw [listedSources_document hparts] at hlisted
    obtain ⟨name, hname, hsame⟩ := countP_pos_iff.mp (hlisted ▸ Nat.one_pos)
    obtain ⟨e, he, rfl⟩ := mem_map.mp hname
    exact ⟨e, he, Value.same_text.mp hsame⟩
  · rintro ⟨e, he, rfl⟩
    refine ⟨fun name description => ?_, ?_⟩
    · have heq : (Value.text e.name).same ∘ (fun d : Endpoint => .text d.name) = (· == e.name) ∘ (·.name) := by
        funext d
        exact (Value.text_same e.name d.name).trans BEq.comm
      rw [listedSources_document hparts, countP_map, heq, ← countP_map]
      exact count_eq_one_of_mem hnodup (mem_map.mpr ⟨e, he, rfl⟩)
    · obtain ⟨p, hp, hdeclared⟩ := exists_of_mem_left hparts he
      obtain ⟨columns, hblock, -⟩ := hdeclared.block
      obtain ⟨before, after, hsplit⟩ := append_of_mem hp
      refine ⟨before.map (·.block), p.block, (after ++ f.steps ++ f.sinks).map (·.block), ?_, ?_, ?_, ?_⟩
      · rw [Flow.blocks, hsplit]
        simp only [map_append, map_cons, append_assoc, cons_append]
      · rw [hblock]; rfl
      · rw [Block.introduces_iff, hblock]; rfl
      · intro c hc hlookup
        obtain ⟨q, hq, rfl⟩ := mem_map.mp hc
        obtain ⟨d, -, hd⟩ := exists_of_mem_right hparts (hsplit ▸ mem_append_left _ hq)
        obtain ⟨columns, hsource, -⟩ := hd.block
        rw [hsource] at hlookup
        exact absurd hlookup (show "source(" ≠ "lookup(" by decide)

/-- A lookup that reads a file has a source for it exactly if the file is a declared source: no other is written. -/
theorem fileLookups_supplied_iff (hscript : ScriptOf r m f) : ∀ t ∈ m.known r, readsFile t = true →
      (Supplies f (lookupTable t) t.name ↔ ∃ e ∈ m.sources, lookupTable t = .text e.name) := by
  intro t ht _
  exact supplies_iff hscript (List.ne_nil_of_mem ht) (lookupTable t) t.name

/-- A lookup in a file that is read as a source, too. -/
def selfLookup : Mapping := .between
  [⟨"L", "Lookup Procedure", none, [], [("lookup_table", .text "S"), ("source_type", .text "Flat File")]⟩]
  [("S", "L"), ("L", "T")]

theorem selfLookup_supplied : ∃ f, ScriptOf .standard selfLookup f ∧ ∃ t ∈ selfLookup.known .standard,
    readsFile t = true ∧ Supplies f (lookupTable t) t.name := by
  have hblocks : blocks? .standard selfLookup =
      some ([.source [] "S"], [.lookup "S" "S" [] "L"], [.sink "L" "T"]) := by decide +kernel
  obtain ⟨f, hscript, -⟩ := exists_scriptOf hblocks
  have hknown : ∃ t ∈ selfLookup.known .standard, readsFile t = true ∧ lookupTable t = .text "S" :=
    ⟨_, List.mem_filter.mpr ⟨List.mem_cons_self, by decide +kernel⟩, rfl, rfl⟩
  obtain ⟨t, ht, hfile, htable⟩ := hknown
  exact ⟨f, hscript, t, ht, hfile, (fileLookups_supplied_iff hscript t ht hfile).mpr ⟨_, List.mem_cons_self, htable⟩⟩

/-- The file is not a declared source, and no source is written for it. -/
theorem fileLookup_unsupplied : ∃ f, ScriptOf .standard fileLookup f ∧ ∃ t ∈ fileLookup.transformations,
    t.type = "Lookup Procedure" ∧ readsFile t = true ∧ (∀ e ∈ fileLookup.sources, lookupTable t ≠ .text e.name) ∧
      ¬ Supplies f (lookupTable t) t.name := by
  have hblocks : blocks? .standard fileLookup =
      some ([.source [] "S"], [.lookup "S" "DIM" [] "L"], [.sink "L" "T"]) := by decide +kernel
  obtain ⟨f, hscript, -⟩ := exists_scriptOf hblocks
  have hnot : ∀ e ∈ fileLookup.sources, Value.text "DIM" ≠ .text e.name := by
    intro e he
    rw [List.mem_singleton.mp he]
    simp
  refine ⟨f, hscript, _, List.mem_cons_self, rfl, rfl, hnot, ?_⟩
  rw [supplies_iff hscript (by decide +kernel)]
  rintro ⟨e, he, htable⟩
  exact hnot e he htable

end MappingFlow
