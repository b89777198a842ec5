/-
  MappingFlow.Proofs.Dataflow.Comparisons — what joins and lookups compare.

  Both write one comparison for each of their conditions, in order, and both only ask
  whether two columns are equal. So a join states its conditions exactly if they all ask for
  equality (`join_stated_iff`). A lookup also takes the number off the end of every column,
  where only a column that it has another name for should be changed; so it compares the
  columns that are meant exactly if every numbered column is one of those
  (`lookup_declared_iff`).
-/

import MappingFlow.Proofs.Conversion.Numbered
import MappingFlow.Proofs.Dataflow.Script
import MappingFlow.Proofs.Dataflow.WellFormed
import MappingFlow.Proofs.Sequence

namespace MappingFlow.Dataflow.Script

open Generation Conversion Pattern
open List

/-- The column that a condition has under a key. -/
def columnAt (c : Fields) (key : String) : String := (c.getD key (.text "")).display

section Lines

variable {α : Type} {opening : String}

theorem openedLines_map (opening : String) (write : α → String) (as : List α) :
    Block.openedLines opening write as = Block.openedLines opening id (as.map write) := by
  cases as with
  | nil => rfl
  | cons a as => simp [Block.openedLines]

theorem openedLines_inj (hlength : xs.length = ys.length)
    (h : Block.openedLines opening id xs = Block.openedLines opening id ys) : xs = ys := by
  have hline : ∀ start : String, Function.Injective fun x => start ++ x ++ "," := fun start x y hxy =>
    (String.append_right_inj start).mp ((String.append_left_inj ",").mp hxy)
  cases xs with
  | nil => exact (length_eq_zero_iff.mp hlength.symm).symm
  | cons x xs =>
    cases ys with
    | nil => cases hlength
    | cons y ys =>
      obtain ⟨hfirst, hrest⟩ := List.cons.inj h
      obtain rfl : x = y := hline opening hfirst
      obtain rfl : xs = ys := map_injective_iff.mpr (hline "     ") hrest
      rfl

end Lines

/-! ## Joins -/

/-- The comparison that a condition of a join states. -/
def Stated (left right : String) (c : Fields) (text : String) : Prop :=
  ∃ op, c.get? "operator" = some op ∧ text = Block.qualify left (columnAt c "leftColumn") ++ " " ++ op.display ++ " " ++
    Block.qualify right (columnAt c "rightColumn")

/-- The columns of a condition, compared for equality. -/
def equated (left right : String) (c : Fields) : String :=
  Block.qualify left (columnAt c "leftColumn") ++ " == " ++ Block.qualify right (columnAt c "rightColumn")

/-- The lines of a join that makes these comparisons. -/
def joinLines (left right : String) (comparisons : List String) (kind name : String) : List String :=
  Block.openedLines (left ++ ", " ++ right ++ " join(") id comparisons ++
    ["     joinType:'" ++ kind ++ "',", "     broadcast: 'auto')~> " ++ name]

theorem stated_equated_iff (left right) : Stated left right c (equated left right c) ↔
    ∃ op, c.get? "operator" = some op ∧ op.display = "==" := by
  refine exists_congr fun op => and_congr_right fun _ => ?_
  rw [equated, show " == " = " " ++ "==" ++ " " from rfl]
  simp only [← String.append_assoc, -String.reduceAppend, String.append_left_inj, String.append_right_inj]
  exact eq_comm

variable {fs : Fields} {cs : List Fields} {name : Value}

theorem joinBlock_yields (hname : fs.get? "name" = some name)
    (hleft : fs.get? "leftInput" = some left) (hl : left.isPresent)
    (hright : fs.get? "rightInput" = some right) (hr : right.isPresent)
    (hconditions : fs.getD "joinConditions" (.list []) = .list (cs.map .object)) :
    Yields (joinBlock (.object fs)) fun block => block.lines = joinLines left.display right.display
      (cs.map (equated left.display right.display)) (fs.getD "joinType" (.text "inner")).display name.display := by
  have hpairs : (cs.map Value.object).mapM columnPair =
      .ok (cs.map fun c => (c.getD "leftColumn" (.text ""), c.getD "rightColumn" (.text ""))) := by
    rw [mapM_eq_ok_iff, forall₂_map_left_iff, forall₂_map_right_iff]
    exact forall₂_same.mpr fun c _ => rfl
  have hpresent : ∀ {v w : Value}, v.isPresent = true → v.orElse w = v := fun hv => if_pos hv
  -- A join of a stream with itself is noted; the block is the same.
  have hlast : Yields (monadLift (conditionItems (.list (cs.map .object))) >>= fun items =>
      monadLift (items.mapM columnPair) >>= fun pairs => (pure (Block.join (left.orElse (.text "MISSING_LEFT_INPUT")).display
        (right.orElse (.text "MISSING_RIGHT_INPUT")).display (pairs.map fun p => ⟨p.1.display, p.2.display⟩)
        (fs.getD "joinType" (.text "inner")).display name.display) : Generating Block)) fun block =>
      block.lines = joinLines left.display right.display (cs.map (equated left.display right.display))
        (fs.getD "joinType" (.text "inner")).display name.display := by
    refine .bind_ok (conditionItems_list _) <| .bind_ok hpairs <| .pure ?_
    rw [hpresent hl, hpresent hr, Block.lines, Block.comparisonLines_eq, openedLines_map, map_map, map_map]
    rfl
  refine .bind_ok (field_ok hname) <| .bind_ok (fieldD_ok rfl) <| .bind_ok (fieldD_ok hconditions) <|
    .bind_ok (fieldD_ok (v := left) (by rw [hleft, Option.getD_some])) <|
    .bind_ok (fieldD_ok (v := right) (by rw [hright, Option.getD_some])) ?_
  refine .ite (fun hmissing => absurd hmissing (by simp [hl, hr])) fun _ => ?_
  exact .ite (fun _ => .bind (.modify _) fun _ _ => hlast) fun _ => hlast

/-- A join writes one comparison for each of its conditions, in order, and always as an
equality. So its lines state the conditions exactly if each of them asks for equality. -/
theorem join_stated_iff (fs : Fields) (cs : List Fields) (name left right : Value) (hname : fs.get? "name" = some name)
    (hleft : fs.get? "leftInput" = some left) (hl : left.isPresent = true)
    (hright : fs.get? "rightInput" = some right) (hr : right.isPresent = true)
    (hconditions : fs.getD "joinConditions" (.list []) = .list (cs.map .object)) :
    Yields (joinBlock (.object fs)) fun block =>
      block.lines = joinLines left.display right.display (cs.map (equated left.display right.display))
          (fs.getD "joinType" (.text "inner")).display name.display ∧
        ((∃ comparisons, List.Forall₂ (Stated left.display right.display) cs comparisons ∧
            block.lines = joinLines left.display right.display comparisons
              (fs.getD "joinType" (.text "inner")).display name.display) ↔
          ∀ c ∈ cs, ∃ op, c.get? "operator" = some op ∧ op.display = "==") := by
  intro s
  obtain ⟨block, s', hrun, hlines⟩ := joinBlock_yields hname hleft hl hright hr hconditions s
  refine ⟨block, s', hrun, hlines, ?_⟩
  simp only [← stated_equated_iff left.display right.display]
  constructor
  · rintro ⟨comparisons, hstated, hsame⟩
    have hlength : (cs.map (equated left.display right.display)).length = comparisons.length := by
      rw [List.length_map, hstated.length_eq]
    have heq := openedLines_inj hlength (List.append_cancel_right (hlines.symm.trans hsame))
    rw [← heq, List.forall₂_map_right_iff, List.forall₂_same] at hstated
    exact hstated
  · intro hall
    exact ⟨_, by rwa [List.forall₂_map_right_iff, List.forall₂_same], hlines⟩

/-- Orders joined to their customers by two keys. -/
def keyedConditions : List Fields :=
  [[("leftColumn", .text "CUST_ID"), ("rightColumn", .text "ID"), ("operator", .text "==")],
    [("leftColumn", .text "REGION"), ("rightColumn", .text "REGION"), ("operator", .text "==")]]

def keyedJoin : Fields :=
  [("name", .text "JNR_ORDERS"), ("type", .text "Join"), ("joinType", .text "left"),
    ("joinConditions", .list (keyedConditions.map .object)), ("leftInput", .text "ORDERS"), ("rightInput", .text "CUSTOMERS")]

theorem keyedJoin_stated : (∀ c ∈ keyedConditions, ∃ op, c.get? "operator" = some op ∧ op.display = "==") ∧
      Yields (joinBlock (.object keyedJoin)) fun block =>
        ∃ comparisons, List.Forall₂ (Stated "ORDERS" "CUSTOMERS") keyedConditions comparisons ∧
          block.lines = joinLines "ORDERS" "CUSTOMERS" comparisons "left" "JNR_ORDERS" := by
  have hequal : ∀ c ∈ keyedConditions, ∃ op, c.get? "operator" = some op ∧ op.display = "==" := by
    intro c hc
    refine ⟨.text "==", ?_, rfl⟩
    rcases List.mem_pair.mp hc with rfl | rfl <;> rfl
  refine ⟨hequal, fun s => ?_⟩
  obtain ⟨block, s', hrun, -, hiff⟩ := join_stated_iff keyedJoin keyedConditions (.text "JNR_ORDERS") (.text "ORDERS")
    (.text "CUSTOMERS") rfl rfl rfl rfl rfl rfl s
  exact ⟨block, s', hrun, hiff.mpr hequal⟩

/-- Periods that overlap without being the same. -/
def overlapConditions : List Fields :=
  [[("leftColumn", .text "A"), ("rightColumn", .text "B"), ("operator", .text "!=")],
    [("leftColumn", .text "C"), ("rightColumn", .text "D"), ("operator", .text "<")]]

def overlapJoin : Fields :=
  [("name", .text "J"), ("type", .text "Join"), ("joinType", .text "inner"),
    ("joinConditions", .list (overlapConditions.map .object)), ("leftInput", .text "L"), ("rightInput", .text "R")]

/-- What is to be different, and what is to be less, is asked to be equal. -/
theorem overlapJoin_misstated : Yields (joinBlock (.object overlapJoin)) fun block =>
    block.lines = ["L, R join(L@A == R@B,", "     L@C == R@D,", "     joinType:'inner',", "     broadcast: 'auto')~> J"] ∧
      ¬ ∃ comparisons, List.Forall₂ (Stated "L" "R") overlapConditions comparisons ∧
        block.lines = joinLines "L" "R" comparisons "inner" "J" := by
  intro s
  refine ⟨_, s, rfl, rfl, ?_⟩
  rintro ⟨comparisons, hstated, hlines⟩
  have hlength : comparisons.length = 2 := hstated.length_eq.symm
  obtain ⟨first, second, rfl⟩ := List.length_eq_two.mp hlength
  obtain ⟨⟨op, hop, hfirst⟩, -⟩ := List.forall₂_cons.mp hstated
  obtain rfl : Value.text "!=" = op := Option.some.inj hop
  subst hfirst
  exact absurd (List.cons.inj hlines).1 (by decide)

/-! ## Lookups -/

/-- What a column of a condition is called: a column that is called by a qualified name, by the part
    behind the stream; every other one as it is. -/
def Declares (renames : Fields) (column name : String) : Prop :=
  match renames.get? column with
  | none => name = column
  | some v => ∃ stream : String, '@' ∉ stream.toList ∧ v = .text (Block.qualify stream name)

/-- The right column of a condition is one of the main stream, the left one of the lookup stream. -/
def Compares (renames : Fields) (c : Fields) (pair : ColumnPair) : Prop :=
  Declares renames (columnAt c "rightColumn") pair.left ∧ Declares renames (columnAt c "leftColumn") pair.right

/-- A column is numbered only if it is called by another name, and this is the one without the number. -/
def IsSettled (renames : Fields) (column : String) : Prop :=
  match renames.get? column with
  | none => ∀ base, ¬ IsNumbered base column.toList
  | some v => ∃ stream : String, '@' ∉ stream.toList ∧ v = .text (Block.qualify stream (unnumbered column))

theorem declares_unnumbered_iff {column : String} :
    Declares renames column (unnumbered column) ↔ IsSettled renames column := by
  unfold Declares IsSettled
  split
  · exact unnumbered_eq_self_iff
  · exact Iff.rfl

theorem withoutSuffix_text (column) : withoutSuffix (.text column) = .ok (unnumbered column) := by
  have hsame : ∀ base, (suffixPattern.at? [] column.toList).map (·.group 1) = some base ↔
      (numberedPattern.at? [] column.toList).map (·.group 1) = some base := fun base =>
    (group_one_iff takesNumber_longest).trans (group_one_iff takesNumber_group).symm
  have hbase : (suffixPattern.at? [] column.toList).map (fun m => String.ofList (m.group 1)) = numberedBase? column := by
    have := congrArg (Option.map String.ofList) (Option.ext hsame)
    rwa [Option.map_map, Option.map_map] at this
  rw [unnumbered, ← hbase, withoutSuffix]
  cases suffixPattern.at? [] column.toList <;> rfl

theorem lookupPair_eq {c : Fields} (h : ∀ key ∈ ["leftColumn", "rightColumn"], (c.getD key (.text "")).kind = .text) :
    lookupPair (.object c) = .ok ⟨unnumbered (columnAt c "rightColumn"), unnumbered (columnAt c "leftColumn")⟩ := by
  have htext : ∀ key ∈ ["leftColumn", "rightColumn"], c.getD key (.text "") = .text (columnAt c key) := by
    intro key hkey
    have hkind := h key hkey
    unfold columnAt
    cases hv : c.getD key (.text "") with
    | text s => rfl
    | _ => rw [hv] at hkind; cases hkind
  have hpair : columnPair (.object c) = .ok (.text (columnAt c "leftColumn"), .text (columnAt c "rightColumn")) := by
    rw [← htext _ mem_cons_self, ← htext _ (.tail _ mem_cons_self)]
    rfl
  exact bind_eq_ok.mpr ⟨_, hpair, bind_eq_ok.mpr ⟨_, withoutSuffix_text _, bind_eq_ok.mpr ⟨_, withoutSuffix_text _, rfl⟩⟩⟩

def mainStream (fs : Fields) (previous : Value) : String := ((fs.getD "mainInput" .null).orElse previous).display

def lookupStream (fs : Fields) : String := (fs.getD "lookupDataset" (.text "UnknownLookupSource")).display

/-- The lines of a lookup that compares these columns. -/
def lookupLines (main table : String) (pairs : List ColumnPair) (name : String) : List String :=
  Block.openedLines (main ++ ", " ++ table ++ " lookup(")
      (fun pair => Block.qualify main pair.left ++ " == " ++ Block.qualify table pair.right) pairs ++
    ["     multiple: false,", "     pickup: 'any')~> " ++ name]

theorem lookupBlock_ok (hname : fs.get? "name" = some name)
    (hconditions : fs.getD "lookupConditions" (.list []) = .list (cs.map .object))
    (htexts : ∀ c ∈ cs, ∀ key ∈ ["leftColumn", "rightColumn"], (c.getD key (.text "")).kind = .text) :
    lookupBlock (.object fs) previous = .ok (.lookup (mainStream fs previous) (lookupStream fs)
      (cs.map fun c => ⟨unnumbered (columnAt c "rightColumn"), unnumbered (columnAt c "leftColumn")⟩) name.display) := by
  have hpairs : (cs.map Value.object).mapM lookupPair = .ok (cs.map fun c =>
      ⟨unnumbered (columnAt c "rightColumn"), unnumbered (columnAt c "leftColumn")⟩) := by
    rw [mapM_eq_ok_iff, forall₂_map_left_iff, forall₂_map_right_iff]
    exact forall₂_same.mpr fun c hc => lookupPair_eq (htexts c hc)
  exact bind_eq_ok.mpr ⟨_, field_ok hname, bind_eq_ok.mpr ⟨_, fieldD_ok hconditions, bind_eq_ok.mpr ⟨_, fieldD_ok rfl,
    bind_eq_ok.mpr ⟨_, fieldD_ok rfl, bind_eq_ok.mpr ⟨_, conditionItems_list _, bind_eq_ok.mpr ⟨_, hpairs, rfl⟩⟩⟩⟩⟩⟩

/-- A lookup writes one comparison for each of its conditions, in order, and takes the number
off the end of every column. So it compares the columns that the conditions mean exactly if a
numbered column is always one that the lookup calls by the name without the number. -/
theorem lookup_declared_iff (fs : Fields) (cs : List Fields) (name previous : Value) (hname : fs.get? "name" = some name)
    (hconditions : fs.getD "lookupConditions" (.list []) = .list (cs.map .object))
    (htexts : ∀ c ∈ cs, ∀ key ∈ ["leftColumn", "rightColumn"], (c.getD key (.text "")).kind = .text) :
    ∃ pairs, lookupBlock (.object fs) previous =
        .ok (.lookup (mainStream fs previous) (lookupStream fs) pairs name.display) ∧
      (Block.lookup (mainStream fs previous) (lookupStream fs) pairs name.display).lines =
        lookupLines (mainStream fs previous) (lookupStream fs) pairs name.display ∧
      (List.Forall₂ (Compares ((Value.object fs).memberFields "columnDisambiguation")) cs pairs ↔
        ∀ c ∈ cs, ∀ key ∈ ["leftColumn", "rightColumn"],
          IsSettled ((Value.object fs).memberFields "columnDisambiguation") (columnAt c key)) := by
  refine ⟨_, lookupBlock_ok hname hconditions htexts, ?_, ?_⟩
  · rw [Block.lines, Block.comparisonLines_eq]
    rfl
  · rw [List.forall₂_map_right_iff, List.forall₂_same]
    refine forall₂_congr fun c _ => ?_
    rw [Compares, declares_unnumbered_iff, declares_unnumbered_iff, List.forall_mem_cons, List.forall_mem_singleton]
    exact and_comm

/-- A promotion looked up by its key, where the key of the promotions is numbered because the
main stream has one. -/
def promotionConditions : List Fields :=
  [[("leftColumn", .text "PROMO_ID2"), ("rightColumn", .text "PROMO_ID"), ("operator", .text "==")]]

def promotionLookup : Fields :=
  [("name", .text "lkp_PROMOTIONS"), ("type", .text "Lookup"), ("lookupDataset", .text "PROMOTIONS"),
    ("mainInput", .text "SALES"), ("lookupConditions", .list (promotionConditions.map .object)),
    ("columnDisambiguation", .object [("PROMO_ID", .text "SALES@PROMO_ID"), ("PROMO_ID2", .text "PROMOTIONS@PROMO_ID")])]

theorem promotionLookup_declared : ∃ pairs,
    lookupBlock (.object promotionLookup) .null = .ok (.lookup "SALES" "PROMOTIONS" pairs "lkp_PROMOTIONS") ∧
      (Block.lookup "SALES" "PROMOTIONS" pairs "lkp_PROMOTIONS").lines =
        lookupLines "SALES" "PROMOTIONS" pairs "lkp_PROMOTIONS" ∧
      List.Forall₂ (Compares [("PROMO_ID", .text "SALES@PROMO_ID"), ("PROMO_ID2", .text "PROMOTIONS@PROMO_ID")])
        promotionConditions pairs := by
  have hplain : unnumbered "PROMO_ID" = "PROMO_ID" := by decide
  have hnumbered : unnumbered "PROMO_ID2" = "PROMO_ID" := by decide
  obtain ⟨pairs, hblock, hlines, hiff⟩ := lookup_declared_iff promotionLookup promotionConditions
    (.text "lkp_PROMOTIONS") .null rfl rfl (by simp [promotionConditions, Fields.getD, Fields.get?, List.lookup_cons, Value.kind])
  refine ⟨pairs, hblock, hlines, hiff.mpr fun c hc => ?_⟩
  obtain rfl := List.mem_singleton.mp hc
  refine List.forall_mem_cons.mpr ⟨⟨"PROMOTIONS", by decide, ?_⟩, List.forall_mem_singleton.mpr ⟨"SALES", by decide, ?_⟩⟩
  · exact congrArg (fun s => Value.text (Block.qualify "PROMOTIONS" s)) hnumbered.symm
  · exact congrArg (fun s => Value.text (Block.qualify "SALES" s)) hplain.symm

/-- The second line of an address is looked up as the first one of a place; neither column has
another name. -/
def addressConditions : List Fields :=
  [[("leftColumn", .text "ADDRESS1"), ("rightColumn", .text "LINE2"), ("operator", .text "==")]]

def addressLookup : Fields :=
  [("name", .text "K"), ("type", .text "Lookup"), ("lookupDataset", .text "T"), ("mainInput", .text "M"),
    ("lookupConditions", .list (addressConditions.map .object)), ("columnDisambiguation", .object [])]

/-- Other columns are compared than the condition names. -/
theorem addressLookup_misread :
    lookupBlock (.object addressLookup) .null = .ok (.lookup "M" "T" [⟨"LINE", "ADDRESS"⟩] "K") ∧
      (Block.lookup "M" "T" [⟨"LINE", "ADDRESS"⟩] "K").lines =
        ["M, T lookup(M@LINE == T@ADDRESS,", "     multiple: false,", "     pickup: 'any')~> K"] ∧
      ¬ List.Forall₂ (Compares []) addressConditions [⟨"LINE", "ADDRESS"⟩] := by
  refine ⟨rfl, rfl, fun h => ?_⟩
  obtain ⟨⟨hmain, -⟩, -⟩ := List.forall₂_cons.mp h
  have hsame : "LINE" = "LINE2" := hmain
  exact absurd hsame (by decide)

end MappingFlow.Dataflow.Script
