/-
  MappingFlow.Proofs.Mapping.Components — whose components a mapping is given.

  A mapping has the name of the first mapping element of its document, but its
  transformations and connectors are looked for in the whole document. In document order
  the elements inside an element follow it directly (`families_split`), so the document is
  the part before that mapping element, the element with all that is inside it, and the
  part after it. The mapping has only components of its own exactly if the two outer
  parts hold none (`components_own_iff`).
-/

import MappingFlow.Mapping.Extraction
import MappingFlow.Proofs.Running
import MappingFlow.Proofs.Sequence

namespace MappingFlow

open Markup
open List

namespace Markup.Element

def hasTag (tag : String) (e : Element) : Bool := e.name == ⟨"", tag⟩

theorem family_eq (e : Element) : e.family = e :: e.descendants := by
  cases e
  rw [family]
  rfl

mutual

theorem family_split : ∀ (e : Element) {before after : List Element} {x : Element},
    e.family = before ++ x :: after → ∃ rest, after = x.descendants ++ rest
  | .node n as cs, before, after, x, h => by
    rw [family] at h
    cases before with
    | nil =>
      obtain ⟨rfl, rfl⟩ := List.cons.inj h
      exact ⟨[], (append_nil _).symm⟩
    | cons b before => exact families_split cs (List.cons.inj h).2

/-- What is inside an element follows it directly. -/
theorem families_split : ∀ (es : List Element) {before after : List Element} {x : Element},
    families es = before ++ x :: after → ∃ rest, after = x.descendants ++ rest
  | [], before, _, _, h => by
    rw [families] at h
    exact absurd h.symm (append_ne_nil_of_right_ne_nil before (cons_ne_nil _ _))
  | e :: es, before, after, x, h => by
    rw [families] at h
    rcases append_eq_append_iff.mp h with ⟨between, -, hrest⟩ | ⟨between, hfirst, hrest⟩
    · exact families_split es hrest
    · cases between with
      | nil =>
        have hsplit : families es = [] ++ x :: after := hrest.symm
        exact families_split es hsplit
      | cons y between =>
        obtain ⟨rfl, rfl⟩ := List.cons.inj hrest
        obtain ⟨rest, rfl⟩ := family_split e hfirst
        exact ⟨rest ++ families es, append_assoc ..⟩

end

theorem find?_eq (root : Element) (tag : String) : root.find? tag = root.descendants.find? (hasTag tag) :=
  head?_filter ..

end Markup.Element

namespace Extraction

open Element

/-- The elements inside the mapping element that gives the name. -/
def ownElements (root : Element) : List Element :=
  match root.find? "MAPPING" with
  | some e => e.descendants
  | none => []

def isNoMapping (e : Element) : Bool := !e.hasTag "MAPPING"

/-- The elements before that mapping element, and those after all that is inside it. -/
def otherElements (root : Element) : List Element :=
  match root.find? "MAPPING" with
  | some e => root.descendants.takeWhile isNoMapping ++ (root.descendants.dropWhile isNoMapping).drop e.family.length
  | none => root.descendants

theorem takeWhile_split {α : Type} {p : α → Bool} {before : List α} {x : α} (hbefore : ∀ a ∈ before, p a)
    (hx : p x = false) (after) : (before ++ x :: after).takeWhile p = before ∧ (before ++ x :: after).dropWhile p = x :: after := by
  rw [takeWhile_append_of_pos hbefore, dropWhile_append_of_pos hbefore,
    takeWhile_cons_of_neg (by simp [hx]), dropWhile_cons_of_neg (by simp [hx]), append_nil]
  exact ⟨rfl, rfl⟩

/-- Apart from mapping elements, the document holds what is inside the first one between the other elements. -/
theorem exists_parts (root : Element) : ∃ before own after,
    root.descendants = before ++ own ++ after ∧ otherElements root = before ++ after ∧
      ∀ tag ≠ "MAPPING", own.filter (hasTag tag) = (ownElements root).filter (hasTag tag) := by
  unfold otherElements ownElements
  cases hfind : root.find? "MAPPING" with
  | none => exact ⟨root.descendants, [], [], by simp, by simp, fun _ _ => rfl⟩
  | some e =>
    rw [find?_eq, find?_eq_some_iff_append] at hfind
    obtain ⟨hmapping, before, after, hsplit, hbefore⟩ := hfind
    obtain ⟨rest, rfl⟩ := families_split root.children hsplit
    have he : isNoMapping e = false := by simp [isNoMapping, hmapping]
    obtain ⟨htake, hdrop⟩ := takeWhile_split (p := isNoMapping) hbefore he (e.descendants ++ rest)
    refine ⟨before, e.family, rest, ?_, ?_, fun tag htag => ?_⟩
    · rw [hsplit, family_eq, append_assoc, cons_append]
    · dsimp only
      rw [hsplit, htake, hdrop, ← cons_append, ← family_eq, drop_left]
    · have hother : hasTag tag e = false := by
        rw [hasTag, beq_iff_eq.mp hmapping]
        exact beq_eq_false_iff_ne.mpr fun h => htag (congrArg Name.base h).symm
      rw [family_eq, filter_cons_of_neg (by simp [hother])]

variable {root : Element}

theorem length_findAll (root) (htag : tag ≠ "MAPPING") : (root.findAll tag).length =
    ((ownElements root).filter (hasTag tag)).length + ((otherElements root).filter (hasTag tag)).length := by
  obtain ⟨before, own, after, hroot, hothers, hown⟩ := exists_parts root
  change (root.descendants.filter (hasTag tag)).length = _
  rw [hroot, hothers, ← hown tag htag]
  simp only [filter_append, length_append]
  omega

theorem findAll_eq_own (htag : tag ≠ "MAPPING") (h : (otherElements root).filter (hasTag tag) = []) :
    root.findAll tag = (ownElements root).filter (hasTag tag) := by
  obtain ⟨before, own, after, hroot, hothers, hown⟩ := exists_parts root
  rw [hothers, filter_append] at h
  obtain ⟨hbefore, hafter⟩ := append_eq_nil_iff.mp h
  change root.descendants.filter (hasTag tag) = _
  rw [hroot, filter_append, filter_append, hbefore, hafter, nil_append, append_nil, hown tag htag]

end Extraction

/-! ## Mappings -/

section

open Element Extraction

/-- The transformations and connectors are those of the mapping element that gives the name. -/
structure Mapping.IsOwn (m : Mapping) (root : Element) : Prop where
  name : ∀ e, root.find? "MAPPING" = some e → m.name = e.attributeD "NAME" unknownName
  transformations : ((ownElements root).filter (hasTag "TRANSFORMATION")).mapM transformation = .ok m.transformations
  connectors : m.connectors = ((ownElements root).filter (hasTag "CONNECTOR")).map connector

def isComponent (e : Element) : Bool := e.hasTag "TRANSFORMATION" || e.hasTag "CONNECTOR"

variable {root : Element} {m : Mapping}

theorem Mapping.ofElement_parts (h : Mapping.ofElement root = .ok m) : m.name = mappingName root ∧
    (root.findAll "SOURCE").mapM endpoint = .ok m.sources ∧ (root.findAll "TARGET").mapM endpoint = .ok m.targets ∧
    (root.findAll "TRANSFORMATION").mapM transformation = .ok m.transformations ∧
    m.connectors = (root.findAll "CONNECTOR").map connector := by
  unfold Mapping.ofElement at h
  obtain ⟨sources, hsources, h⟩ := bind_eq_ok.mp h
  obtain ⟨targets, htargets, h⟩ := bind_eq_ok.mp h
  obtain ⟨transformations, htransformations, h⟩ := bind_eq_ok.mp h
  cases h
  exact ⟨rfl, hsources, htargets, htransformations, rfl⟩

theorem length_of_mapM {xs : List Element} (h : xs.mapM transformation = .ok ts) :
    xs.length = ts.length := (mapM_eq_ok_iff.mp h).length_eq

theorem none_other_iff : (∀ e ∈ otherElements root, isComponent e = false) ↔
    (otherElements root).filter (hasTag "TRANSFORMATION") = [] ∧ (otherElements root).filter (hasTag "CONNECTOR") = [] := by
  simp only [filter_eq_nil_iff, isComponent, Bool.or_eq_false_iff, Bool.not_eq_true]
  exact ⟨fun h => ⟨fun e he => (h e he).1, fun e he => (h e he).2⟩, fun h e he => ⟨h.1 e he, h.2 e he⟩⟩

/-- A mapping has exactly the components of the mapping element that it is named after if and only if no component
    stands anywhere else in the document. -/
theorem components_own_iff (h : Mapping.ofElement root = .ok m) :
    m.IsOwn root ↔ ∀ e ∈ otherElements root, isComponent e = false := by
  obtain ⟨hname, -, -, htransformations, hconnectors⟩ := Mapping.ofElement_parts h
  rw [none_other_iff]
  constructor
  · rintro ⟨-, htransformations', hconnectors'⟩
    have ht := length_findAll root (show "TRANSFORMATION" ≠ "MAPPING" by decide)
    have hc := length_findAll root (show "CONNECTOR" ≠ "MAPPING" by decide)
    have hlength := congrArg List.length (hconnectors.symm.trans hconnectors')
    rw [length_of_mapM htransformations, length_of_mapM htransformations'] at ht
    rw [List.length_map, List.length_map] at hlength
    exact ⟨List.length_eq_zero_iff.mp (by omega), List.length_eq_zero_iff.mp (by omega)⟩
  · rintro ⟨ht, hc⟩
    refine ⟨fun e he => ?_, ?_, ?_⟩
    · rw [hname, mappingName, he]
    · rw [← findAll_eq_own (by decide) ht, htransformations]
    · rw [← findAll_eq_own (by decide) hc, hconnectors]

def plainElement (tag : String) (attributes : List (String × String)) (children : List Element) : Element :=
  .node ⟨"", tag⟩ (attributes.map fun a => (⟨"", a.1⟩, a.2)) children

def filterElement (name : String) : Element := plainElement "TRANSFORMATION" [("NAME", name), ("TYPE", "Filter")] []

def connectorElement (source target : String) : Element :=
  plainElement "CONNECTOR" [("FROMINSTANCE", source), ("TOINSTANCE", target)] []

def mappingElement (name : String) (children : List Element) : Element :=
  plainElement "MAPPING" [("NAME", name)] children

/-- The source stands beside the mapping, and a folder inside it. -/
def folderDocument : Element := plainElement "POWERMART" []
  [plainElement "SOURCE" [("NAME", "S")] [],
   mappingElement "m" [plainElement "FOLDER" [] [filterElement "A"], connectorElement "S" "A"]]

theorem folderDocument_own : ∃ m, Mapping.ofElement folderDocument = .ok m ∧ m.IsOwn folderDocument ∧
    ∀ e ∈ otherElements folderDocument, isComponent e = false := by
  have hother : ∀ e ∈ otherElements folderDocument, isComponent e = false := by decide
  obtain ⟨m, hm⟩ : ∃ m, Mapping.ofElement folderDocument = .ok m := ⟨_, rfl⟩
  exact ⟨m, hm, (components_own_iff hm).mpr hother, hother⟩

def twoMappings : Element := plainElement "POWERMART" []
  [mappingElement "m1" [filterElement "A", connectorElement "S" "A"],
   mappingElement "m2" [filterElement "B", connectorElement "S" "B"]]

/-- The mapping is named after the first element and has the components of both. -/
theorem twoMappings_mixed : ∃ m, Mapping.ofElement twoMappings = .ok m ∧ m.name = "m1" ∧
    m.transformations.map (·.name) = ["A", "B"] ∧ ¬ m.IsOwn twoMappings := by
  have hread : (Mapping.ofElement twoMappings).toOption.map (fun m => (m.name, m.transformations.map (·.name))) =
      some ("m1", ["A", "B"]) := by decide
  obtain ⟨m, hm, hparts⟩ := Option.map_eq_some_iff.mp hread
  obtain ⟨hname, hnames⟩ := Prod.mk.inj hparts
  refine ⟨m, ok_of_toOption hm, hname, hnames, fun hown => ?_⟩
  have hone : ((ownElements twoMappings).filter (hasTag "TRANSFORMATION")).length = 1 := by decide
  have htwo : m.transformations.length = 2 := by rw [← List.length_map (·.name), hnames]; rfl
  have := length_of_mapM hown.transformations
  omega

end

end MappingFlow
