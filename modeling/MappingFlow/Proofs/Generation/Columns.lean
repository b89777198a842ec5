/-
  MappingFlow.Proofs.Generation.Columns — whether the columns of a source reach the script.

  A source element declares its columns as source fields of its own or as transformation
  fields at any depth (`declaredFields`). Only the latter are read, and the datatype of
  each goes through two tables: the rules give it a type, and the script language a word
  for the type. A type without a word becomes a text, as no type would. So a source is
  carried through exactly if it has no source fields and the script language knows the
  types of its columns (`sources_carried_iff`).
-/

import MappingFlow.Proofs.Generation.Sources
import MappingFlow.Proofs.Mapping.Components

namespace MappingFlow

open Conversion Dataflow Generation Markup Markup.Element Script Except Value Mapping
open List

namespace Properties

def columnName (c : Element) : String := c.attributeD "NAME" ""

def columnType (c : Element) : String := c.attributeD "DATATYPE" "string"

/-- The source fields among the elements and the transformation fields inside them, in document order. -/
def declaredAmong (es : List Element) : List Element :=
  es.flatMap fun e => (if e.hasTag "SOURCEFIELD" then [e] else []) ++ e.family.filter (hasTag "TRANSFORMFIELD")

/-- The columns that a source element declares. -/
def declaredFields (e : Element) : List Element := declaredAmong e.children

def hasSourceField (e : Element) : Bool := e.children.any (hasTag "SOURCEFIELD")

theorem length_declaredAmong (es) : (declaredAmong es).length =
    (es.filter (hasTag "SOURCEFIELD")).length + ((families es).filter (hasTag "TRANSFORMFIELD")).length := by
  induction es with
  | nil => rw [families]; rfl
  | cons e es ih =>
    rw [declaredAmong, flatMap_cons, length_append, ← declaredAmong, ih, families, filter_append,
      length_append, length_append]
    cases he : e.hasTag "SOURCEFIELD" <;> simp [he] <;> omega

theorem declaredAmong_eq (h : es.any (hasTag "SOURCEFIELD") = false) :
    declaredAmong es = (families es).filter (hasTag "TRANSFORMFIELD") := by
  induction es with
  | nil => rw [families]; rfl
  | cons e es ih =>
    rw [any_cons, Bool.or_eq_false_iff] at h
    rw [declaredAmong, flatMap_cons, ← declaredAmong, ih h.2, families, filter_append, h.1]
    rfl

/-- All declared columns are read exactly if none of them is a source field. -/
theorem length_declaredFields_eq_iff (e) :
    (declaredFields e).length = (fieldElements e).length ↔ hasSourceField e = false := by
  have hlength := length_declaredAmong e.children
  have hzero : (e.children.filter (hasTag "SOURCEFIELD")).length = 0 ↔ hasSourceField e = false := by
    rw [length_eq_zero_iff, filter_eq_nil_iff, hasSourceField, any_eq_false]
  rw [← hzero]
  change (declaredAmong e.children).length = ((families e.children).filter (hasTag "TRANSFORMFIELD")).length ↔ _
  omega

end Properties

open Properties

/-! ## One column -/

/-- The column of the script is the declared one. It is a text only if the rules make it one. -/
structure Lists (r : Rules) (c : Element) (column : String × String) : Prop where
  name : column.1 = columnName c
  type : column.2 = "string" → r.datatype (columnType c) = .ok (.text "String")

/-- The column of the script that a declared column becomes. -/
structure ReadAs (r : Rules) (c : Element) (column : String × String) : Prop where
  name : column.1 = columnName c
  type : ∃ type, r.datatype (columnType c) = .ok type ∧ scriptType type = .ok column.2

/-- The script language has a word for the type that the rules give the column. -/
def keepsType (r : Rules) (c : Element) : Bool :=
  match r.datatype (columnType c) with
  | .ok (.text type) => (scriptTypes.lookup type).isSome
  | _ => false

/-- The word for texts belongs to one type. -/
theorem lookup_scriptTypes_eq_string (h : scriptTypes.lookup type = some "string") : type = "String" := by
  have hall : ∀ p ∈ scriptTypes, p.2 = "string" → p.1 = "String" := by decide
  exact hall _ (mem_of_lookup h) rfl

theorem scriptType_string_iff (h : scriptType type = .ok word) :
    (word = "string" → type = .text "String") ↔ ∃ s, type = .text s ∧ (scriptTypes.lookup s).isSome = true := by
  cases type with
  | text s =>
    obtain rfl : (scriptTypes.lookup s).getD "string" = word := ok.inj h
    simp only [text.injEq, exists_eq_left']
    cases hs : scriptTypes.lookup s with
    | none =>
      refine iff_of_false (fun hstring => ?_) Bool.false_ne_true
      rw [hstring rfl] at hs
      cases hs
    | some w =>
      refine iff_of_true (fun hw => lookup_scriptTypes_eq_string ?_) rfl
      rw [hs]
      exact congrArg some hw
  | list | object => cases h
  | _ =>
    -- Whatever else can be looked up is not found.
    obtain rfl : "string" = word := ok.inj h
    refine iff_of_false (fun hstring => ?_) ?_
    · cases hstring rfl
    · rintro ⟨s, hs, -⟩
      cases hs

theorem keepsType_iff : keepsType r c ↔
    ∃ s, r.datatype (columnType c) = .ok (.text s) ∧ (scriptTypes.lookup s).isSome = true := by
  unfold keepsType
  split
  · rename_i s hs
    simp [hs]
  · rename_i hnot
    refine iff_of_false Bool.false_ne_true ?_
    rintro ⟨s, hs, -⟩
    exact hnot s hs

theorem ReadAs.lists_iff (h : ReadAs r c column) : Lists r c column ↔ keepsType r c = true := by
  obtain ⟨type, htype, hword⟩ := h.type
  have hlists : Lists r c column ↔ (column.2 = "string" → type = .text "String") := by
    constructor
    · intro hl hstring
      exact ok.inj (htype.symm.trans (hl.type hstring))
    · intro hstring
      exact ⟨h.name, fun hs => by rw [htype, hstring hs]⟩
  rw [hlists, scriptType_string_iff hword, keepsType_iff, htype]
  simp only [ok.injEq]

/-! ### By the standard rules -/

theorem get?_table (rows : List (String × String)) (key : String) :
    Fields.get? (rows.map fun row => (row.1, text row.2)) key = (rows.lookup key).map .text := by
  unfold Fields.get?
  induction rows with
  | nil => rfl
  | cons row rows ih =>
    rw [map_cons, lookup_cons, lookup_cons, ih]
    cases key == row.1 <;> rfl

def lowered (name : String) : String := String.ofList (Text.lower name.toList)

theorem datatype_table {r : Rules} (hrows : r.datatypes = Rules.table rows)
    (hpresent : ∀ row ∈ rows, row.2 ≠ "") (name : String) :
    r.datatype name = .ok (.text ((rows.lookup (lowered name)).getD "String")) := by
  rw [Rules.datatype, hrows, Rules.table]
  change ok (orElse ((Fields.get? _ (lowered name)).getD .null) (.text "String")) = _
  rw [get?_table]
  cases hrow : rows.lookup (lowered name) with
  | none => rfl
  | some type =>
    have htype : (text type).isPresent = true := bne_iff_ne.mpr (hpresent _ (mem_of_lookup hrow))
    simp only [Option.map_some, Option.getD_some, orElse, htype, if_true]

/-- The datatypes whose type has no word, by the standard rules. -/
def wordless : List String := ["smallint", "float", "real"]

theorem keepsType_standard (c) : keepsType .standard c = !wordless.contains (lowered (columnType c)) := by
  obtain ⟨rows, hrows, hpresent, hwords, hwordless⟩ : ∃ rows, Rules.standard.datatypes = Rules.table rows ∧
      (∀ row ∈ rows, row.2 ≠ "") ∧
      (∀ row ∈ rows, (scriptTypes.lookup row.2).isSome = !wordless.contains row.1) ∧
      ∀ key ∈ wordless, (rows.lookup key).isSome = true :=
    ⟨_, rfl, by decide, by decide, by decide⟩
  rw [keepsType, datatype_table hrows hpresent]
  dsimp only
  cases hrow : rows.lookup (lowered (columnType c)) with
  | some type => exact hwords _ (mem_of_lookup hrow)
  | none =>
    -- The rules do not know the datatype, so it is none of the three, and a text.
    have hnot : lowered (columnType c) ∉ wordless := by
      intro hkey
      have hsome := hwordless _ hkey
      rw [hrow] at hsome
      cases hsome
    rw [contains_eq_mem, decide_eq_false hnot]
    rfl

/-! ## One source -/

/-- The block lists the columns that the element declares, each once and in order. -/
def Carries (r : Rules) (e : Element) (b : Block) : Prop :=
  ∃ columns, b = .source columns (e.attributeD "NAME" "") ∧ Forall₂ (Lists r) (declaredFields e) columns

/-- The block that a source element becomes. -/
def WrittenAs (r : Rules) (e : Element) (b : Block) : Prop :=
  ∃ columns, b = .source columns (e.attributeD "NAME" "") ∧ Forall₂ (ReadAs r) (fieldElements e) columns

variable {r : Rules} {root e : Element} {m : Mapping} {f : Scripted.Flow}

theorem readAs_of_column {written : String × String}
    (hc : Extraction.column c = .ok column) (hwritten : TypedAs r column written) : ReadAs r c written := by
  obtain ⟨precision, -, hc⟩ := bind_eq_ok.mp hc
  obtain ⟨scale, -, hc⟩ := bind_eq_ok.mp hc
  cases hc
  exact ⟨hwritten.name, hwritten.type⟩

theorem writtenAs_of_endpoint (hd : Extraction.endpoint e = .ok d) (hp : DeclaredBy r d p) : WrittenAs r e p.block := by
  obtain ⟨columns, hcolumns, hd⟩ := bind_eq_ok.mp hd
  cases hd
  obtain ⟨written, hblock, hwritten⟩ := hp.block
  refine ⟨written, hblock, forall₂_trans ?_ (mapM_eq_ok_iff.mp hcolumns) hwritten⟩
  exact fun c column written hc hwritten => readAs_of_column hc hwritten

theorem WrittenAs.carries_iff (h : WrittenAs r e b) :
    Carries r e b ↔ hasSourceField e = false ∧ ∀ c ∈ fieldElements e, keepsType r c = true := by
  obtain ⟨columns, rfl, hread⟩ := h
  have hall := forall₂_iff_forall hread fun _ _ => ReadAs.lists_iff
  constructor
  · rintro ⟨listed, hlisted, hlists⟩
    obtain ⟨rfl, -⟩ := Block.source.inj hlisted
    have hnone : hasSourceField e = false :=
      (length_declaredFields_eq_iff e).mp (hlists.length_eq.trans hread.length_eq.symm)
    refine ⟨hnone, hall.mp ?_⟩
    rwa [declaredFields, declaredAmong_eq hnone] at hlists
  · rintro ⟨hnone, hkeeps⟩
    refine ⟨columns, rfl, ?_⟩
    rw [declaredFields, declaredAmong_eq hnone]
    exact hall.mpr hkeeps

/-! ## All sources -/

theorem sources_written (hm : ofElement root = .ok m) (hscript : ScriptOf r m f)
    (hused : m.known r ≠ [] ∨ m.targets ≠ []) :
    Forall₂ (WrittenAs r) (root.findAll "SOURCE") (f.sources.map (·.block)) := by
  obtain ⟨-, hsources, -⟩ := ofElement_parts hm
  rw [forall₂_map_right_iff]
  refine forall₂_trans ?_ (mapM_eq_ok_iff.mp hsources) (hscript.sources hused).1
  exact fun e d p hd hp => writtenAs_of_endpoint hd hp

/-- The columns of all sources reach the script exactly if the sources lead somewhere, none of them has source fields,
    and the script language has a word for the type of each column. -/
theorem sources_carried_iff (hm : Mapping.ofElement root = .ok m) (hscript : ScriptOf r m f) :
    List.Forall₂ (Carries r) (root.findAll "SOURCE") (f.sources.map (·.block)) ↔
      ∀ e ∈ root.findAll "SOURCE", (m.known r ≠ [] ∨ m.targets ≠ []) ∧ hasSourceField e = false ∧
        ∀ c ∈ fieldElements e, keepsType r c = true := by
  by_cases hused : m.known r ≠ [] ∨ m.targets ≠ []
  · simp only [hused, true_and]
    exact forall₂_iff_forall (sources_written hm hscript hused) fun _ _ => WrittenAs.carries_iff
  · rw [not_or, not_not, not_not] at hused
    rw [hscript.sources_eq_nil hused.1 hused.2, List.map_nil, List.forall₂_nil_right_iff]
    simp [hused, List.eq_nil_iff_forall_not_mem]

theorem targets_ne_nil (hm : ofElement root = .ok m) (h : root.findAll "TARGET" ≠ []) : m.targets ≠ [] := by
  obtain ⟨-, -, htargets, -⟩ := ofElement_parts hm
  intro hnil
  rw [hnil] at htargets
  exact h (forall₂_nil_right_iff.mp (mapM_eq_ok_iff.mp htargets))

def fieldElement (tag name type : String) : Element := plainElement tag [("NAME", name), ("DATATYPE", type)] []

def sourceElement (name : String) (children : List Element) : Element := plainElement "SOURCE" [("NAME", name)] children

def targetElement (name : String) : Element := plainElement "TARGET" [("NAME", name)] []

/-- A source with transformation fields at two depths; the rules do not know the datatype of one of them. -/
def nestedFields : Element := plainElement "POWERMART" []
  [sourceElement "S" [fieldElement "TRANSFORMFIELD" "ID" "Number",
    plainElement "GROUP" [] [fieldElement "TRANSFORMFIELD" "NOTE" "clob"]], targetElement "T"]

theorem nestedFields_carried : ∃ m f, Mapping.ofElement nestedFields = .ok m ∧ ScriptOf .standard m f ∧
    f.sources.map (·.block) = [.source [("ID", "integer"), ("NOTE", "string")] "S"] ∧
      List.Forall₂ (Carries .standard) (nestedFields.findAll "SOURCE") (f.sources.map (·.block)) := by
  have hread : (Mapping.ofElement nestedFields).toOption.bind (blocks? .standard) =
      some ([.source [("ID", "integer"), ("NOTE", "string")] "S"], [], [.sink "S" "T"]) := by decide +kernel
  obtain ⟨m, hm, hblocks⟩ := Option.bind_eq_some_iff.mp hread
  obtain ⟨f, hscript, hsources, -, hsinks⟩ := exists_scriptOf hblocks
  have hm := ok_of_toOption hm
  have htargets : m.targets ≠ [] := targets_ne_nil hm (by decide)
  have hkept : ∀ e ∈ nestedFields.findAll "SOURCE", hasSourceField e = false ∧
      ∀ c ∈ fieldElements e, keepsType .standard c = true := by decide +kernel
  exact ⟨m, f, hm, hscript, hsources,
    (sources_carried_iff hm hscript).mpr fun e he => ⟨.inr htargets, hkept e he⟩⟩

/-- One source has a source field, and the other a column whose type has no word. -/
def lostFields : Element := plainElement "POWERMART" []
  [sourceElement "S" [fieldElement "SOURCEFIELD" "ID" "number"],
   sourceElement "P" [fieldElement "TRANSFORMFIELD" "RATE" "float"], targetElement "T"]

/-- The column of the first is gone, and that of the second has become a text. -/
theorem lostFields_not_carried : ∃ m f, Mapping.ofElement lostFields = .ok m ∧ ScriptOf .standard m f ∧
    f.sources.map (·.block) = [.source [] "S", .source [("RATE", "string")] "P"] ∧
      List.Forall₂ (fun e b => ¬ Carries .standard e b) (lostFields.findAll "SOURCE") (f.sources.map (·.block)) := by
  have hread : (Mapping.ofElement lostFields).toOption.bind (blocks? .standard) =
      some ([.source [] "S", .source [("RATE", "string")] "P"], [], [.sink "S" "T"]) := by decide +kernel
  obtain ⟨m, hm, hblocks⟩ := Option.bind_eq_some_iff.mp hread
  obtain ⟨f, hscript, hsources, -⟩ := exists_scriptOf hblocks
  have hm := ok_of_toOption hm
  have htargets : m.targets ≠ [] := targets_ne_nil hm (by decide)
  have hlost : ∀ e ∈ lostFields.findAll "SOURCE", ¬ (hasSourceField e = false ∧
      ∀ c ∈ fieldElements e, keepsType .standard c = true) := by decide +kernel
  refine ⟨m, f, hm, hscript, hsources, ?_⟩
  exact (forall₂_iff_forall (sources_written hm hscript (.inr htargets)) fun _ _ h => not_congr h.carries_iff).mpr hlost

end MappingFlow
