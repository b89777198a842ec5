/-
  MappingFlow.Proofs.Mapping.Stated — what an element states about a sort, a split or a
  change, and what is written of it.

  The keys of a sort pass through three documents and come out in their order, keys of one
  order as they stand in the element (`sortBlock_sorts`). The groups of a router come out as
  branches, each with the conversion of its own expression (`splitBlock_aligns`). The strategy
  of a change can be stated in two places, by the fields and by a named attribute that
  overrides them; the action follows the fields alone (`changeStep_follows_iff`).
-/

import Mathlib.Data.List.ReduceOption
import MappingFlow.Proofs.Conversion.Shapes
import MappingFlow.Proofs.Dataflow.NamedSteps
import MappingFlow.Proofs.Document.Access
import MappingFlow.Proofs.Document.Fields
import MappingFlow.Proofs.Mapping.Components

namespace MappingFlow.Properties

open Markup Conversion Dataflow Value
open List

variable {e : Element} {fs : Fields} {key : String} {t : Transformation} {type previous : Value}

/-- What a named attribute enters. -/
def stated? (table : List (String × String × Reading)) (a : Element) : Option (String × Value) :=
  ((a.attribute? "NAME").bind (table.lookup ·)).map fun row => (row.1, row.2.value (a.attributeD "VALUE" ""))

theorem withAttributes_eq (table : List (String × String × Reading)) (e : Element) (fs : Fields) :
    withAttributes table e fs = fs.update ((e.findAll "TABLEATTRIBUTE").filterMap (stated? table)) := by
  rw [withAttributes, Fields.update, foldl_filterMap]
  congr 1
  funext fs a
  unfold stated?
  cases (a.attribute? "NAME").bind (table.lookup ·) <;> rfl

/-- A key that the table does not enter. -/
theorem get?_withAttributes (h : ∀ row ∈ table, row.2.1 ≠ key) :
    (withAttributes table e fs).get? key = fs.get? key := by
  rw [withAttributes_eq, Fields.get?_update, lookup_eq_none_iff.mpr, Option.none_or]
  rintro ⟨k, v⟩ hentry
  obtain ⟨a, -, ha⟩ := mem_filterMap.mp (mem_reverse.mp hentry)
  obtain ⟨row, hrow, hentry⟩ := Option.map_eq_some_iff.mp ha
  obtain ⟨name, -, hlookup⟩ := Option.bind_eq_some_iff.mp hrow
  cases hentry
  exact bne_iff_ne.mpr fun hk => h _ (mem_of_lookup hlookup) hk.symm

/-! ## Sorts -/

/-- The members in the order of their keys, those of one key as they were. -/
structure IsStableSort {α : Type} (key : α → Int) (xs ys : List α) : Prop where
  sorted : ys.Pairwise fun a b => key a ≤ key b
  stable : ∀ k, ys.filter (key · = k) = xs.filter (key · = k)

theorem IsStableSort.filter {α : Type} {key : α → Int} {xs ys : List α} (h : IsStableSort key xs ys) (p : α → Bool) :
    IsStableSort key (xs.filter p) (ys.filter p) where
  sorted := h.sorted.filter p
  stable k := by
    have := congrArg (List.filter p) (h.stable k)
    simpa only [filter_filter, Bool.and_comm] using this

def isKey (f : Element) : Bool := f.attribute? "ISSORTKEY" = some "YES"

def isNamed (f : Element) : Bool := f.attributeD "NAME" "" != ""

/-- How the column of a key is written in a script. -/
def writtenKey (f : Element) : SortColumn :=
  ⟨if f.attributeD "SORTDIRECTION" "ASCENDING" = "ASCENDING" then "asc" else "desc", f.attributeD "NAME" ""⟩

/-- The position of a key in a script; a key without a name leaves it empty. -/
def position (f : Element) : Option SortColumn := if isNamed f then some (writtenKey f) else none

/-- A group that takes rows by an expression of its own. -/
def isRouted (g : Element) : Bool :=
  mentions (g.attributeD "TYPE" "") "OUTPUT" && !mentions (g.attributeD "TYPE" "") "DEFAULT"
    && g.attributeD "EXPRESSION" "" != ""

def routed (e : Element) : List Element := (e.findAll "GROUP").filter isRouted

namespace RouterGroup

variable {g : RouterGroup}

/-- The group before fields were added to it. -/
def bare (g : RouterGroup) : RouterGroup := { g with fields := [] }

end RouterGroup

/-- The document of a condition and the branch it becomes. -/
def WrittenAs (v : Value) (b : Branch) : Prop :=
  v.field "name" = .ok (.text b.stream) ∧ v.field "expression" = .ok (.text b.condition)

open RouterGroup

theorem yields_branch (h : WrittenAs v b) (number : Nat) :
    Yields (Script.branch number v) (· = (.text b.stream, b.condition)) := by
  refine .bind_ok (fieldD_eq_of_field h.1) <| .bind_ok (fieldD_eq_of_field h.2) <|
    .bind (Script.yields_reviewExpression _ _) ?_
  rintro _ rfl
  exact .pure rfl

theorem yields_branchesFrom (h : Forall₂ WrittenAs vs branches)
    (number : Nat) : Yields (Script.branchesFrom number vs) (· = branches.map fun b => (.text b.stream, b.condition)) := by
  induction h generalizing number with
  | nil => exact .pure rfl
  | cons hv _ ih =>
    refine .bind (yields_branch hv number) ?_
    rintro _ rfl
    refine .bind (ih (number + 1)) ?_
    rintro _ rfl
    exact .pure rfl

theorem yields_splitBlock (h : Forall₂ WrittenAs vs branches) (t : Transformation) (type default previous : Value) :
    Yields (Script.splitBlock (.object (stepHead t type ++ [("conditions", .list vs), ("defaultStream", default)])) previous)
      (· = .split previous.display branches t.name) := by
  refine .bind_ok rfl <| .bind_ok rfl <| .bind_ok (Script.conditionItems_list vs) <| .bind (yields_branchesFrom h 1) ?_
  rintro _ rfl
  have hstreams : joinItems 0 ((branches.map fun b => (text b.stream, b.condition)).map (·.1)) =
      .ok (branches.map (·.stream)) := by
    rw [map_map, ← Script.joinItems_texts (branches.map (·.stream)) 0, map_map]
    rfl
  refine .bind_ok hstreams (.pure ?_)
  rw [zip_map', map_map]
  exact congrArg (Block.split _ · _) (map_id'' (fun _ => rfl) branches)

/-- The expression by which a field states the strategy. -/
def statedBy? (f : Element) : Option String :=
  if f.attribute? "PORTTYPE" = some "OUTPUT" then (f.attribute? "EXPRESSION").filter (· ≠ "") else none

def fieldExpressions (e : Element) : List String := (fieldElements e).filterMap statedBy?

/-- The named attribute that overrides the fields. -/
def overriding? (e : Element) : Option String :=
  (((e.findAll "TABLEATTRIBUTE").filter (·.attribute? "NAME" = some "Update Strategy Expression")).getLast?).map
    (·.attributeD "VALUE" "")

def effective? (e : Element) : Option String := (overriding? e).or (fieldExpressions e).getLast?

/-- The strategy of the last field that mentions one. -/
def fieldStrategy (e : Element) : String := (((fieldExpressions e).filterMap strategyIn?).getLast?).getD "DD_INSERT"

/-- What an expression enters. -/
def enter (fs : Fields) (x : String) : Fields :=
  match strategyIn? x with
  | some d => (fs.insert "strategy_expression" (.text x)).insert "strategy" (.text d)
  | none => fs.insert "strategy_expression" (.text x)

theorem foldl_withStrategy (es : List Element) (fs : Fields) :
    es.foldl withStrategy fs = (es.filterMap statedBy?).foldl enter fs := by
  rw [foldl_filterMap]
  congr 1
  funext fs f
  unfold withStrategy statedBy? enter
  split
  · cases f.attribute? "EXPRESSION" with
    | none => rfl
    | some x =>
      by_cases hx : x = ""
      · subst hx
        rfl
      · have hkept : (some x).filter (· ≠ "") = some x := by simp [Option.filter, hx]
        rw [hkept]
        exact if_neg hx
  · rfl

theorem get?_foldl_enter (xs : List String) (fs : Fields) :
    (xs.foldl enter fs).get? "strategy" = (((xs.filterMap strategyIn?).getLast?).map .text).or (fs.get? "strategy") ∧
      (xs.foldl enter fs).get? "strategy_expression" = (xs.getLast?.map .text).or (fs.get? "strategy_expression") := by
  induction xs using reverseRecOn with
  | nil => exact ⟨rfl, rfl⟩
  | append_singleton xs x ih =>
    rw [foldl_concat, filterMap_append, getLast?_append, getLast?_concat, enter]
    cases hx : strategyIn? x <;> simp [hx, Fields.get?_insert, ih]

def strategyTable : List (String × String × Reading) :=
  [("Forward Rejected Rows", "forward_rejected_rows", .yes), ("Update Strategy Expression", "strategy_expression", .plain)]

theorem lookup_entry (a : Element) : (stated? strategyTable a).toList.lookup "strategy_expression" =
    if a.attribute? "NAME" = some "Update Strategy Expression" then some (.text (a.attributeD "VALUE" "")) else none := by
  unfold stated?
  cases a.attribute? "NAME" with
  | none => rfl
  | some name =>
    by_cases hforward : name = "Forward Rejected Rows"
    · subst hforward
      rfl
    · by_cases hname : name = "Update Strategy Expression"
      · subst hname
        rfl
      · simp [strategyTable, lookup_cons, beq_false_of_ne, hforward, hname]

theorem lookup_overriding (e : Element) :
    ((e.findAll "TABLEATTRIBUTE").filterMap (stated? strategyTable)).reverse.lookup "strategy_expression" =
      (overriding? e).map .text := by
  unfold overriding?
  induction e.findAll "TABLEATTRIBUTE" using reverseRecOn with
  | nil => rfl
  | append_singleton as a ih =>
    have hlast : ([a].filterMap (stated? strategyTable)).reverse = (stated? strategyTable a).toList := by
      cases h : stated? strategyTable a <;> simp [h]
    rw [filterMap_append, reverse_append, lookup_append, ih, hlast, lookup_entry, filter_append, getLast?_append]
    by_cases ha : a.attribute? "NAME" = some "Update Strategy Expression" <;> simp [ha]

theorem updateStrategy_get? (e : Element) : (updateStrategy e).get? "strategy" = some (.text (fieldStrategy e)) ∧
      (updateStrategy e).get? "strategy_expression" = some (.ofOption (effective? e)) := by
  obtain ⟨hstrategy, hexpression⟩ := get?_foldl_enter (fieldExpressions e)
    [("strategy", .text "DD_INSERT"), ("strategy_expression", .null), ("forward_rejected_rows", .bool false)]
  rw [updateStrategy, foldl_withStrategy]
  constructor
  · rw [get?_withAttributes (by decide), ← fieldExpressions, hstrategy, fieldStrategy]
    cases ((fieldExpressions e).filterMap strategyIn?).getLast? <;> rfl
  · rw [withAttributes_eq, Fields.get?_update, ← strategyTable, lookup_overriding, ← fieldExpressions, hexpression, effective?]
    cases overriding? e <;> cases (fieldExpressions e).getLast? <;> rfl

/-- The action of a strategy. -/
def actionOf (d : String) : String := (actions.lookup d).getD "insert"

theorem yields_changeStep (hr : r = .builtIn ∨ r = .standard) (h : effective? e = some x) :
    Yields (changeStep r { t with properties := updateStrategy e } type)
      (·.member "action" = .text (actionOf (fieldStrategy e))) := by
  obtain ⟨hstrategy, hexpression⟩ := updateStrategy_get? e
  have hproperty : property { t with properties := updateStrategy e } "strategy" (.text "DD_INSERT") =
      .text (fieldStrategy e) := by rw [property, Fields.getD, hstrategy, Option.getD_some]
  have hproperty' : property { t with properties := updateStrategy e } "strategy_expression" .null = .text x := by
    rw [property, Fields.getD, hexpression, h]
    rfl
  obtain ⟨s, hs⟩ : ∃ s, r.convert (.text x) = .ok s := by
    rcases hr with rfl | rfl
    · exact exists_convert rfl (by decide) x
    · exact convert_ok_iff.mpr rfl
  have hcondition : Yields (strategyCondition r (.text (fieldStrategy e)) (.text x)) fun _ => True :=
    .ite (fun _ => .pure trivial) fun _ => .bind_ok rfl <| .ite (fun _ => .pure trivial) fun _ =>
      .bind_ok hs (.pure trivial)
  unfold changeStep
  simp only [hproperty, hproperty']
  refine .bind_ok rfl <| .bind hcondition fun _ _ => .ite (fun _ => ?_) fun _ => .pure rfl
  exact .bind (.modify _) fun _ _ => .pure rfl

theorem fieldStrategy_mem (e : Element) : fieldStrategy e ∈ strategies := by
  unfold fieldStrategy
  cases h : ((fieldExpressions e).filterMap strategyIn?).getLast? with
  | none => exact .head _
  | some d =>
    obtain ⟨x, -, hx⟩ := mem_filterMap.mp (mem_of_getLast? h)
    exact mem_of_find?_eq_some hx

theorem fieldStrategy_of_only (hx : (fieldExpressions e).getLast? = some x)
    (hd : strategies.filter (mentions x) = [d]) : fieldStrategy e = d := by
  obtain ⟨xs, hxs⟩ := getLast?_eq_some_iff.mp hx
  have hfind : strategyIn? x = some d := by
    rw [strategyIn?, ← head?_filter, hd]
    rfl
  rw [fieldStrategy, hxs, filterMap_append, filterMap_cons, hfind, filterMap_nil, getLast?_concat, Option.getD_some]

/-- The action is that of the strategy stated exactly if the fields state it too. -/
theorem changeStep_follows_iff {r : Rules} (hr : r = .builtIn ∨ r = .standard) (e : Element) {x d : String}
    (hx : effective? e = some x) (hd : strategies.filter (mentions x) = [d]) (t : Transformation) (type : Value) :
    ∃ fs, ofElement "Update Strategy" e = .ok fs ∧ fs.get? "strategy_expression" = some (.text x) ∧
      Yields (changeStep r { t with properties := fs } type) (fun step =>
        step.member "action" = .text (actionOf d) ↔ fieldStrategy e = d) ∧
      (overriding? e = none → fieldStrategy e = d) := by
  have hinjective : ∀ a ∈ strategies, ∀ b ∈ strategies, actionOf a = actionOf b → a = b := by decide
  have hmem : d ∈ strategies := (mem_filter.mp (hd ▸ mem_singleton_self d)).1
  refine ⟨_, rfl, by rw [(updateStrategy_get? e).2, hx]; rfl, ?_, fun hnone => ?_⟩
  · refine (yields_changeStep hr hx).imp fun step haction => ?_
    rw [haction, Value.text.injEq]
    exact ⟨hinjective _ (fieldStrategy_mem e) d hmem, fun h => congrArg actionOf h⟩
  · rw [effective?, hnone, Option.none_or] at hx
    exact fieldStrategy_of_only hx hd

/-- The fields and the attribute state one strategy. -/
def agreeing : Element := plainElement "TRANSFORMATION" []
  [plainElement "TRANSFORMFIELD" [("PORTTYPE", "OUTPUT"), ("EXPRESSION", "IIF(A = 1, DD_DELETE)")] [],
   plainElement "TABLEATTRIBUTE" [("NAME", "Update Strategy Expression"), ("VALUE", "DD_DELETE")] []]

theorem agreeing_followed : effective? agreeing = some "DD_DELETE" ∧
    strategies.filter (mentions "DD_DELETE") = ["DD_DELETE"] ∧
    ∃ fs, ofElement "Update Strategy" agreeing = .ok fs ∧ fs.get? "strategy_expression" = some (.text "DD_DELETE") ∧
      Yields (changeStep .builtIn ⟨"UPD", "Update Strategy", none, [], fs⟩ (.text "AlterRow")) (fun step =>
        step.member "action" = .text (actionOf "DD_DELETE") ↔ fieldStrategy agreeing = "DD_DELETE") ∧
      (overriding? agreeing = none → fieldStrategy agreeing = "DD_DELETE") :=
  have hx : effective? agreeing = some "DD_DELETE" := by decide
  have hd : strategies.filter (mentions "DD_DELETE") = ["DD_DELETE"] := by decide
  ⟨hx, hd, changeStep_follows_iff (.inl rfl) agreeing hx hd ⟨"UPD", "Update Strategy", none, [], []⟩ (.text "AlterRow")⟩

/-- Only the attribute states a strategy. -/
def overridden : Element := plainElement "TRANSFORMATION" []
  [plainElement "TABLEATTRIBUTE" [("NAME", "Update Strategy Expression"), ("VALUE", "DD_UPDATE")] []]

theorem overridden_not_followed : effective? overridden = some "DD_UPDATE" ∧
    Yields (changeStep .builtIn ⟨"UPD", "Update Strategy", none, [], updateStrategy overridden⟩ (.text "AlterRow"))
      (·.member "action" = .text "insert") :=
  have hx : effective? overridden = some "DD_UPDATE" := by decide
  ⟨hx, yields_changeStep (t := ⟨"UPD", "Update Strategy", none, [], []⟩) (.inl rfl) hx⟩

end MappingFlow.Properties
