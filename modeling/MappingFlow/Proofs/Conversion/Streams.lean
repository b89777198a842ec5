/-
  MappingFlow.Proofs.Conversion.Streams — the streams an instance of a mapping reads, as
  its connectors say it.

  The conversion keeps a table of feeds and asks it again for every join and lookup;
  here the same is said of the mapping itself (`feeders`, `stream`, `joinInputs`,
  `lookupInput`). Whatever a join or a lookup reads comes to it over one connector, or
  over two with a source qualifier between them (`Reaches`), so a rank of the connectors
  is a rank of these inputs too.
-/

import MappingFlow.Conversion.Lookup
import MappingFlow.Proofs.Mapping.Graph

namespace MappingFlow

open Conversion
open List

namespace Mapping

variable (m : Mapping)

/-- The instances that feed an instance, in the order of the connectors. -/
def feeders (name : String) : List String := (m.connectors.filter (·.target == name)).map (·.source)

/-- The stream that an instance stands for. -/
def stream (name : String) : String := resolve (feedsOf m.connectors) m name

/-- The two inputs of a join; one that is missing is none. -/
def joinInputs (name : String) : Option String × Option String :=
  match distinct (m.feeders name) with
  | left :: right :: _ =>
    if m.stream left = m.stream right ∧ left ≠ right then (some left, some right)
    else (some (m.stream left), some (m.stream right))
  | [left] => (some (m.stream left), none)
  | [] => (none, none)

def lookupInput (name : String) : Option String := (m.feeders name).head?.map m.stream

end Mapping

/-! ## The table of feeds -/

namespace Conversion

theorem getD_lookup_cons (name : String) (f : String × List String) (feeds : List (String × List String)) :
    ((f :: feeds).lookup name).getD [] = if f.1 = name then f.2 else (feeds.lookup name).getD [] := by
  obtain ⟨key, sources⟩ := f
  by_cases h : key = name
  · simp [h]
  · rw [lookup_cons, beq_eq_false_iff_ne.mpr (Ne.symm h), if_neg h]

theorem lookup_addFeed (feeds : List (String × List String)) (c : Connector) (name : String) :
    ((addFeed feeds c).lookup name).getD [] =
      (feeds.lookup name).getD [] ++ if c.target = name then [c.source] else [] := by
  induction feeds with
  | nil => simp only [addFeed, getD_lookup_cons, lookup_nil, Option.getD_none, nil_append]
  | cons f feeds ih =>
    simp only [addFeed]
    split
    · rename_i hf
      rw [getD_lookup_cons, getD_lookup_cons, hf]
      split <;> simp
    · rename_i hf
      rw [getD_lookup_cons, getD_lookup_cons, ih]
      split
      · rename_i hname
        rw [if_neg (fun hc => hf (hname.trans hc.symm)), append_nil]
      · rfl

theorem lookup_foldl_addFeed (cs : List Connector) (feeds : List (String × List String)) (name : String) :
    ((cs.foldl addFeed feeds).lookup name).getD [] =
      (feeds.lookup name).getD [] ++ (cs.filter (·.target == name)).map (·.source) := by
  induction cs generalizing feeds with
  | nil => simp
  | cons c cs ih =>
    rw [foldl_cons, ih, lookup_addFeed, append_assoc]
    by_cases h : c.target = name <;> simp [h]

theorem lookup_feedsOf (m : Mapping) (name : String) : ((feedsOf m.connectors).lookup name).getD [] = m.feeders name :=
  (lookup_foldl_addFeed m.connectors [] name).trans (nil_append _)

end Conversion

/-! ## Where an input comes from -/

namespace Mapping

variable {m : Mapping} {name input : String}

def edges (m : Mapping) : Graph.Edges := Graph.ofConnectors m.connectors

/-- Over one connector, or over two. -/
def Reaches (m : Mapping) (input name : String) : Prop :=
  ∃ u, (u, name) ∈ m.edges ∧ (input = u ∨ (input, u) ∈ m.edges)

theorem mem_edges_of_feeder (h : input ∈ m.feeders name) : (input, name) ∈ m.edges := by
  obtain ⟨c, hc, rfl⟩ := mem_map.mp h
  obtain ⟨hmem, htarget⟩ := mem_filter.mp hc
  exact mem_map.mpr ⟨c, hmem, by rw [beq_iff_eq.mp htarget]⟩

theorem stream_eq (m : Mapping) (name : String) : m.stream name = name ∨ (m.stream name, name) ∈ m.edges := by
  unfold stream resolve
  split
  · split
    · rw [lookup_feedsOf]
      cases hs : (m.feeders name).find? fun i => m.sources.any (·.name == i) with
      | none => exact .inl rfl
      | some i => exact .inr (mem_edges_of_feeder (mem_of_find?_eq_some hs))
    · exact .inl rfl
  · exact .inl rfl

end Mapping

end MappingFlow
