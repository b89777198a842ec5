/-
  MappingFlow.Proofs.Dataflow.NamedSteps — the blocks of steps that have names where names
  belong.

  `HasParts fs type` is what a step of a type is made of: names for its streams and columns,
  even expressions, and lists of any length. Such a step always gets a block, and a block of
  names and even expressions (`yields_stepBlock`), so the block is well formed exactly if the
  step closes what it opens (`Completes`).
-/

import MappingFlow.Proofs.Dataflow.Disambiguation
import MappingFlow.Proofs.Dataflow.Script
import MappingFlow.Proofs.Dataflow.WellFormed

namespace MappingFlow.Dataflow.Script

open Generation Pattern
open List hiding all

/-! ## What a step is made of -/

/-- The text under a key, or the one that stands for it if the key is missing. -/
def TextAt (fs : Fields) (key absent : String) (P : String → Prop) : Prop :=
  ∃ s, fs.getD key (.text absent) = .text s ∧ P s

/-- A list under a key, or none. -/
def ListAt (fs : Fields) (key : String) (P : Value → Prop) : Prop :=
  ∃ vs, fs.getD key (.list []) = .list vs ∧ ∀ v ∈ vs, P v

def IsTextName (v : Value) : Prop := ∃ s, v = .text s ∧ IsName s

/-- A name, or what counts as none. -/
def IsNameOrNone (v : Value) : Prop := v.isPresent = false ∨ IsTextName v

def IsAssignment (v : Value) : Prop :=
  ∃ (fs : Fields) (name : String), v = .object fs ∧ fs.get? "name" = some (.text name) ∧ IsName name ∧ TextAt fs "expression" "" IsEven

def IsComparison (v : Value) : Prop :=
  ∃ fs, v = .object fs ∧ TextAt fs "leftColumn" "" IsBare ∧ TextAt fs "rightColumn" "" IsBare

/-- What a position of a sort calls its column. -/
def sortName : Value → Value
  | .object fs => Fields.getD fs "name" (Fields.getD fs "column" (.text ""))
  | v => v

def sortDirection : Value → String
  | .object fs => (Fields.getD fs "order" (Fields.getD fs "direction" (.text "asc"))).display
  | _ => "asc"

def IsPosition (v : Value) : Prop := IsNameOrNone (sortName v) ∧ IsBare (sortDirection v)

def IsBranch (v : Value) : Prop :=
  ∃ fs, v = .object fs ∧ TextAt fs "name" "stream" IsName ∧ TextAt fs "expression" "" IsEven

def IsSelected (v : Value) : Prop := IsTextName v ∨ ∃ fs, v = .object fs ∧ TextAt fs "name" "" IsName

inductive HasParts (fs : Fields) : String → Prop
  | derive : ListAt fs "columns" IsAssignment → HasParts fs "DerivedColumn"
  | filter : TextAt fs "condition" "true()" IsEven → HasParts fs "Filter"
  | aggregate : ListAt fs "groupBy" IsTextName → ListAt fs "aggregates" IsAssignment → HasParts fs "Aggregate"
  | join : IsNameOrNone (fs.getD "leftInput" .null) → IsNameOrNone (fs.getD "rightInput" .null) →
      TextAt fs "joinType" "inner" IsBare → ListAt fs "joinConditions" IsComparison → HasParts fs "Join"
  | sort : ListAt fs "orderBy" IsPosition → HasParts fs "Sort"
  | split : ListAt fs "conditions" IsBranch → HasParts fs "ConditionalSplit"
  | lookup : IsNameOrNone (fs.getD "mainInput" .null) → TextAt fs "lookupDataset" "UnknownLookupSource" IsName →
      ListAt fs "lookupConditions" IsComparison → HasParts fs "Lookup"
  | select : ListAt fs "columns" IsSelected → HasParts fs "Select"

structure IsNamed (fs : Fields) (name : String) : Prop where
  named : fs.get? "name" = some (.text name)
  isName : IsName name

structure IsStep (fs : Fields) (type name : String) : Prop extends IsNamed fs name where
  typed : fs.get? "type" = some (.text type)
  parts : HasParts fs type

/-- An aggregate assigns something, and a sort that keeps any column keeps the last. -/
def Completes (fs : Fields) (type : String) : Prop :=
  (type = "Aggregate" → fs.getD "aggregates" (.list []) ≠ .list []) ∧
  (type = "Sort" → ∀ items, fs.getD "orderBy" (.list []) = .list items →
    (∃ v ∈ items.getLast?, (sortName v).isPresent = true) ∨ ∀ v ∈ items, (sortName v).isPresent = false)

/-- The block of a step: its parts are in order, and it is complete if the step is. -/
def Suits (fs : Fields) (type name : String) (b : Block) : Prop :=
  b.Parts ∧ b.output = name ∧ (b.IsComplete ↔ Completes fs type)

variable {fs : Fields} {type name p : String} {earlier : List Value}

/-- Of the other types every step is complete. -/
theorem suits_of_parts (hparts : b.Parts) (houtput : b.output = name) (hcomplete : b.IsComplete)
    (htype : type ≠ "Aggregate" ∧ type ≠ "Sort") : Suits fs type name b :=
  ⟨hparts, houtput, iff_of_true hcomplete ⟨fun h => absurd h htype.1, fun h => absurd h htype.2⟩⟩

/-! ## Derived columns, filters, aggregates -/

theorem yields_reviewExpression (label s) : Yields (reviewExpression label (.text s)) (· = s) := by
  have htext : (Value.text s).textFor "upper" = .ok s := rfl
  refine .bind_ok htext (.ite (fun _ => ?_) fun _ => ?_)
  · exact .bind (.modify _) fun _ _ => .pure rfl
  · exact .pure rfl

theorem exists_keptColumns (h : ∀ c ∈ cs, IsAssignment c) :
    ∃ kept, keptColumns cs = .ok kept ∧ ∀ c ∈ kept, IsAssignment c := by
  induction cs with
  | nil => exact ⟨[], rfl, forall_mem_nil _⟩
  | cons c cs ih =>
    obtain ⟨hc, hcs⟩ := forall_mem_cons.mp h
    obtain ⟨kept, hkept, hall⟩ := ih hcs
    obtain ⟨fs, name, rfl, hname, -, s, hs, -⟩ := id hc
    obtain ⟨b, hb⟩ : ∃ b, isKept (.object fs) = .ok b :=
      ⟨_, bind_eq_ok.mpr ⟨_, field_ok hname, bind_eq_ok.mpr ⟨_, fieldD_ok hs, bind_eq_ok.mpr ⟨s, rfl, rfl⟩⟩⟩⟩
    refine ⟨if b then .object fs :: kept else kept, bind_eq_ok.mpr ⟨b, hb, bind_eq_ok.mpr ⟨kept, hkept, rfl⟩⟩, ?_⟩
    cases b with
    | true => exact forall_mem_cons.mpr ⟨hc, hall⟩
    | false => exact hall

theorem isEven_lowerFunctions (h : IsEven (String.ofList t)) : IsEven (String.ofList (lowerFunctions t)) := by
  refine List.foldlRecOn (motive := fun t => IsEven (String.ofList t)) _ _ h fun t ht name hname => ?_
  have hfunctions : ∀ name ∈ aggregateFunctions, (∀ c ∈ counted, (all [wordEdge, caseless name.toList, wordEdge]).rejects c = true) ∧
      0 < (all [wordEdge, caseless name.toList, wordEdge]).minLength ∧ Text.lower name.toList ≠ [] ∧
      ∀ c ∈ counted, c ∉ Text.lower name.toList := by
    decide +kernel
  obtain ⟨hrejects, hlength, hne, hlower⟩ := hfunctions name hname
  exact isEven_substitute hrejects hlength hne hlower ht

/-- A function around an expression adds what it opens and what it closes. -/
theorem isEven_first (h : IsEven s) : IsEven ("first(" ++ s ++ ")") := by
  have hadds := ((by decide : Adds "first(".toList 1 0).even (by decide) (by decide) h).str
    (by decide : Adds ")".toList (-1) 0)
  have hdepth := hadds.1
  exact ⟨hadds.2.1, by omega⟩

theorem exists_names (h : ∀ v ∈ vs, IsTextName v) :
    ∃ names : List String, vs = names.map .text ∧ ∀ a ∈ names, IsName a := by
  induction vs with
  | nil => exact ⟨[], rfl, forall_mem_nil _⟩
  | cons v vs ih =>
    obtain ⟨⟨s, rfl, hs⟩, hvs⟩ := forall_mem_cons.mp h
    obtain ⟨names, rfl, hnames⟩ := ih hvs
    exact ⟨s :: names, rfl, forall_mem_cons.mpr ⟨hs, hnames⟩⟩

theorem joinItems_texts (names) (position : Nat) : Value.joinItems position (names.map .text) = .ok names := by
  induction names generalizing position with
  | nil => rfl
  | cons s names ih => exact bind_eq_ok.mpr ⟨names, ih (position + 1), rfl⟩

def IsWritten (a : Assignment) : Prop := IsName a.name ∧ IsEven a.expression

section Renamed

variable (hearlier : ∀ step ∈ earlier, RenamesNames step)

include hearlier

/-- An expression as it is written, after the lookups and the review. -/
theorem yields_expression {α : Type} {k : String → Generating α} {Q : α → Prop} (hs : IsEven s)
    (hk : ∀ s', IsEven s' → Yields (k s') Q) :
    Yields (monadLift (disambiguate earlier (.text s)) >>= fun e => reviewExpression label e >>= k) Q := by
  obtain ⟨s', hs', heven⟩ := exists_disambiguate kept_isEven hearlier hs
  refine .bind_ok hs' (.bind (yields_reviewExpression label s') ?_)
  rintro _ rfl
  exact hk _ heven

theorem yields_derivedColumn (hc : IsAssignment c) : Yields (derivedColumn earlier c) IsWritten := by
  obtain ⟨fs, name, rfl, hname, hisName, s, hs, heven⟩ := hc
  exact .bind_ok (field_ok hname) <| .bind_ok (fieldD_ok hs) <|
    yields_expression hearlier heven fun _ heven' => .pure ⟨hisName, heven'⟩

theorem yields_derivedColumns (h : ∀ c ∈ cs, IsAssignment c) :
    Yields (derivedColumns earlier cs) fun as => ∀ a ∈ as, IsWritten a := by
  induction cs with
  | nil => exact .pure (forall_mem_nil _)
  | cons c cs ih =>
    obtain ⟨hc, hcs⟩ := forall_mem_cons.mp h
    exact .bind (yields_derivedColumn hearlier hc) fun a ha => .bind (ih hcs) fun as has =>
      .pure (forall_mem_cons.mpr ⟨ha, has⟩)

theorem yields_deriveBlock (hp : IsName p) (hn : IsNamed fs name) (h : ListAt fs "columns" IsAssignment) :
    Yields (deriveBlock (.object fs) (.text p) earlier) (Suits fs "DerivedColumn" name) := by
  obtain ⟨cs, hcs, hall⟩ := h
  obtain ⟨kept, hkept, hkeptAll⟩ := exists_keptColumns hall
  refine .bind_ok (field_ok hn.named) <| .bind_ok (fieldD_ok hcs) <| .bind_ok rfl <| .bind_ok hkept ?_
  refine .bind (yields_derivedColumns hearlier hkeptAll) fun as has => .pure ?_
  exact suits_of_parts ⟨hp, has, hn.isName⟩ rfl trivial (by decide)

theorem yields_filterBlock (hp : IsName p) (hn : IsNamed fs name) (h : TextAt fs "condition" "true()" IsEven) :
    Yields (filterBlock (.object fs) (.text p) earlier) (Suits fs "Filter" name) := by
  obtain ⟨s, hs, heven⟩ := h
  refine .bind_ok (field_ok hn.named) <| .bind_ok (fieldD_ok hs) <| yields_expression hearlier heven fun s' heven' => ?_
  exact .pure (suits_of_parts ⟨hp, heven', hn.isName⟩ rfl trivial (by decide))

theorem yields_aggregateColumn (hc : IsAssignment c) : Yields (aggregateColumn earlier c) IsWritten := by
  obtain ⟨fs, name, rfl, hname, hisName, s, hs, heven⟩ := hc
  refine .bind_ok (field_ok hname) <| .bind_ok (fieldD_ok hs) <| yields_expression hearlier heven fun s' heven' => ?_
  have hlowered : IsEven (String.ofList (lowerFunctions s'.toList)) :=
    isEven_lowerFunctions (by rwa [String.ofList_toList])
  exact .ite (fun _ => .pure ⟨hisName, isEven_first hlowered⟩) fun _ => .pure ⟨hisName, hlowered⟩

theorem yields_aggregateColumns (h : ∀ c ∈ cs, IsAssignment c) :
    Yields (aggregateColumns earlier cs) fun as => (∀ a ∈ as, IsWritten a) ∧ (as = [] ↔ cs = []) := by
  induction cs with
  | nil => exact .pure ⟨forall_mem_nil _, iff_of_true rfl rfl⟩
  | cons c cs ih =>
    obtain ⟨hc, hcs⟩ := forall_mem_cons.mp h
    exact .bind (yields_aggregateColumn hearlier hc) fun a ha => .bind (ih hcs) fun as has =>
      .pure ⟨forall_mem_cons.mpr ⟨ha, has.1⟩, iff_of_false (cons_ne_nil a as) (cons_ne_nil c cs)⟩

theorem exists_groupColumns (h : ∀ v ∈ vs, IsTextName v) :
    ∃ groups, groupColumns earlier (.list vs) = .ok groups ∧ ∀ g ∈ groups, AreNames g := by
  by_cases hne : vs = []
  · subst hne
    exact ⟨none, rfl, fun _ hg => by cases hg⟩
  · have hpresent : ¬(!(Value.list vs).isPresent) = true := by simpa [Value.isPresent] using hne
    have hcolumn : ∀ v ∈ vs, ∃ w, disambiguate earlier v = .ok w ∧ IsTextName w := by
      intro v hv
      obtain ⟨s, rfl, hs⟩ := h v hv
      obtain ⟨s', hs', hname⟩ := exists_disambiguate kept_isName hearlier hs
      exact ⟨_, hs', s', rfl, hname⟩
    obtain ⟨ws, hws, hlength, hall⟩ := exists_mapM hcolumn
    obtain ⟨names, rfl, hnames⟩ := exists_names hall
    have hjoined : Value.joined ", " (.list (names.map .text)) = .ok (", ".intercalate names) :=
      bind_eq_ok.mpr ⟨names, joinItems_texts names 0, rfl⟩
    refine ⟨some (", ".intercalate names), ?_, ?_⟩
    · rw [groupColumns, if_neg hpresent]
      exact bind_eq_ok.mpr ⟨vs, rfl, bind_eq_ok.mpr ⟨_, hws, bind_eq_ok.mpr ⟨_, hjoined, rfl⟩⟩⟩
    · rintro g hg
      obtain rfl : ", ".intercalate names = g := Option.some.inj hg
      refine ⟨names, ?_, hnames, rfl⟩
      rintro rfl
      exact hne (length_eq_zero_iff.mp hlength.symm)

theorem yields_aggregateBlock (hp : IsName p) (hn : IsNamed fs name) (hgroups : ListAt fs "groupBy" IsTextName)
    (h : ListAt fs "aggregates" IsAssignment) :
    Yields (aggregateBlock (.object fs) (.text p) earlier) (Suits fs "Aggregate" name) := by
  obtain ⟨vs, hvs, hnames⟩ := hgroups
  obtain ⟨cs, hcs, hall⟩ := h
  obtain ⟨groups, hgroups, hareNames⟩ := exists_groupColumns hearlier hnames
  refine .bind_ok (field_ok hn.named) <| .bind_ok (fieldD_ok hvs) <| .bind_ok (fieldD_ok hcs) <| .bind_ok hgroups <|
    .bind_ok rfl <| .bind (yields_aggregateColumns hearlier hall) fun as has => .pure ⟨⟨hp, hareNames, has.1, hn.isName⟩, rfl, ?_⟩
  have hempty : (Value.list cs = .list []) ↔ as = [] := by rw [Value.list.injEq, has.2]
  constructor
  · intro hne
    exact ⟨fun _ heq => hne (hempty.mp (hcs.symm.trans heq)), fun hsort => absurd hsort (by decide)⟩
  · intro hc heq
    exact hc.1 rfl (hcs.trans (hempty.mpr heq))

end Renamed

/-! ## Joins and lookups -/

theorem isName_orElse (h : IsNameOrNone v) (ha : IsName absent) : IsName (v.orElse (.text absent)).display := by
  rcases h with h | ⟨s, rfl, hs⟩
  · rw [Value.orElse, h]
    exact ha
  · have hpresent : (Value.text s).isPresent = true := by simpa [Value.isPresent] using hs.1
    rw [Value.orElse, hpresent]
    exact hs

theorem exists_columnPair (h : IsComparison c) :
    ∃ s s', columnPair c = .ok (.text s, .text s') ∧ IsBare s ∧ IsBare s' := by
  obtain ⟨fs, rfl, ⟨s, hs, hbare⟩, s', hs', hbare'⟩ := h
  exact ⟨s, s', bind_eq_ok.mpr ⟨_, fieldD_ok hs, bind_eq_ok.mpr ⟨_, fieldD_ok hs', rfl⟩⟩, hbare, hbare'⟩

theorem yields_joinBlock (hn : IsNamed fs name)
    (hleft : IsNameOrNone (fs.getD "leftInput" .null)) (hright : IsNameOrNone (fs.getD "rightInput" .null))
    (hkind : TextAt fs "joinType" "inner" IsBare) (h : ListAt fs "joinConditions" IsComparison) :
    Yields (joinBlock (.object fs)) (Suits fs "Join" name) := by
  obtain ⟨kind, hkind, hbare⟩ := hkind
  obtain ⟨cs, hcs, hall⟩ := h
  have hpair : ∀ c ∈ cs, ∃ q, columnPair c = .ok q ∧ IsBare q.1.display ∧ IsBare q.2.display := by
    intro c hc
    obtain ⟨s, s', hpair, hs, hs'⟩ := exists_columnPair (hall c hc)
    exact ⟨_, hpair, hs, hs'⟩
  obtain ⟨pairs, hpairs, -, hbares⟩ := exists_mapM hpair
  -- Whatever was noted on the way, the block is the same.
  have hlast : Yields (monadLift (conditionItems (.list cs)) >>= fun items => monadLift (items.mapM columnPair) >>= fun pairs =>
      (pure (Block.join ((fs.getD "leftInput" .null).orElse (.text "MISSING_LEFT_INPUT")).display
        ((fs.getD "rightInput" .null).orElse (.text "MISSING_RIGHT_INPUT")).display
        (pairs.map fun q => ⟨q.1.display, q.2.display⟩) kind name) : Generating Block)) (Suits fs "Join" name) := by
    refine .bind_ok (conditionItems_list cs) <| .bind_ok hpairs <| .pure (suits_of_parts ?_ rfl trivial (by decide))
    exact ⟨isName_orElse hleft (by decide), isName_orElse hright (by decide), forall_mem_map.mpr hbares, hbare,
      hn.isName⟩
  refine .bind_ok (field_ok hn.named) <| .bind_ok (fieldD_ok hkind) <| .bind_ok (fieldD_ok hcs) <|
    .bind_ok (fieldD_ok rfl) <| .bind_ok (fieldD_ok rfl) ?_
  refine .ite (fun _ => .bind (.modify _) fun _ _ => ?_) fun _ => ?_
  · exact .ite (fun _ => .bind (.modify _) fun _ _ => hlast) fun _ => hlast
  · exact .ite (fun _ => .bind (.modify _) fun _ _ => hlast) fun _ => hlast

/-- Without the number at its end a column is part of what it was. -/
theorem exists_withoutSuffix (h : IsBare s) : ∃ s', withoutSuffix (.text s) = .ok s' ∧ IsBare s' := by
  simp only [withoutSuffix]
  split
  · rename_i m hm
    refine ⟨_, rfl, fun c hc => h c ?_⟩
    obtain ⟨t, ht, rfl⟩ := at_reads hm
    obtain ⟨u, ⟨v, -, rfl⟩, ht⟩ := reads_all_cons ht
    have hgroups := reads_groups (by rfl) ht
    rw [String.toList_ofList, Match.group, if_neg (by decide), toMatch, hgroups] at hc
    exact mem_of_mem_take hc
  · exact ⟨s, rfl, h⟩

theorem exists_lookupPair (h : IsComparison c) : ∃ k, lookupPair c = .ok k ∧ IsBare k.left ∧ IsBare k.right := by
  obtain ⟨s, s', hpair, hs, hs'⟩ := exists_columnPair h
  obtain ⟨column, hcolumn, hbare⟩ := exists_withoutSuffix hs
  obtain ⟨main, hmain, hbare'⟩ := exists_withoutSuffix hs'
  exact ⟨⟨main, column⟩, bind_eq_ok.mpr ⟨_, hpair, bind_eq_ok.mpr ⟨_, hcolumn, bind_eq_ok.mpr ⟨_, hmain, rfl⟩⟩⟩, hbare', hbare⟩

theorem exists_lookupBlock (hp : IsName p) (hn : IsNamed fs name)
    (hmain : IsNameOrNone (fs.getD "mainInput" .null)) (htable : TextAt fs "lookupDataset" "UnknownLookupSource" IsName)
    (h : ListAt fs "lookupConditions" IsComparison) :
    ∃ b, lookupBlock (.object fs) (.text p) = .ok b ∧ Suits fs "Lookup" name b := by
  obtain ⟨table, htable, hisTable⟩ := htable
  obtain ⟨cs, hcs, hall⟩ := h
  obtain ⟨pairs, hpairs, -, hbares⟩ := exists_mapM fun c hc => exists_lookupPair (hall c hc)
  refine ⟨_, bind_eq_ok.mpr ⟨_, field_ok hn.named, bind_eq_ok.mpr ⟨_, fieldD_ok hcs, bind_eq_ok.mpr ⟨_, fieldD_ok htable,
    bind_eq_ok.mpr ⟨_, fieldD_ok rfl, bind_eq_ok.mpr ⟨_, conditionItems_list cs, bind_eq_ok.mpr ⟨pairs, hpairs, rfl⟩⟩⟩⟩⟩⟩, ?_⟩
  exact suits_of_parts ⟨isName_orElse hmain hp, hisTable, hbares, hn.isName⟩ rfl trivial (by decide)

/-! ## Sorts, splits, selections -/

/-- What a position of a sort is written as, if it is. -/
def position (v : Value) : Option SortColumn :=
  if (sortName v).isPresent then some ⟨sortDirection v, (sortName v).display⟩ else none

theorem sortColumn_eq (v : Value) : sortColumn v = .ok (position v) := by cases v <;> rfl

theorem position_eq_none : position v = none ↔ (sortName v).isPresent = false := by
  simp [position]

theorem position_names (h : IsPosition v) {k : SortColumn} (hk : position v = some k) :
    IsBare k.direction ∧ IsName k.name := by
  rw [position] at hk
  split at hk
  · rename_i hpresent
    rcases h.1 with habsent | ⟨s, hs, hname⟩
    · rw [habsent] at hpresent
      cases hpresent
    · cases hk
      exact ⟨h.2, by rw [hs]; exact hname⟩
  · cases hk

theorem complete_positions {items : List Value} :
    ((items.map position).getLastD none ≠ none ∨ ∀ c ∈ items.map position, c = none) ↔
      (∃ v ∈ items.getLast?, (sortName v).isPresent) ∨ ∀ v ∈ items, (sortName v).isPresent = false := by
  have hlast : (items.map position).getLastD none ≠ none ↔ ∃ v ∈ items.getLast?, (sortName v).isPresent = true := by
    rw [getLastD_eq_getLast?, getLast?_map]
    cases items.getLast? with
    | none => simp
    | some v => simp [position_eq_none]
  rw [hlast, forall_mem_map]
  simp only [position_eq_none]

theorem exists_sortBlock (hp : IsName p) (hn : IsNamed fs name)
    (h : ListAt fs "orderBy" IsPosition) : ∃ b, sortBlock (.object fs) (.text p) = .ok b ∧ Suits fs "Sort" name b := by
  obtain ⟨items, hitems, hall⟩ := h
  have hcolumns : items.mapM sortColumn = .ok (items.map position) :=
    mapM_eq_ok_iff.mpr (forall₂_map_right_iff.mpr (forall₂_same.mpr fun v _ => sortColumn_eq v))
  refine ⟨_, bind_eq_ok.mpr ⟨_, field_ok hn.named, bind_eq_ok.mpr ⟨_, fieldD_ok hitems, bind_eq_ok.mpr ⟨items, rfl,
    bind_eq_ok.mpr ⟨_, hcolumns, rfl⟩⟩⟩⟩, ⟨hp, fun k hk => ?_, hn.isName⟩, rfl, ?_⟩
  · obtain ⟨v, hv, hk⟩ := mem_map.mp hk
    exact position_names (hall v hv) hk
  · refine complete_positions.trans ⟨fun hc => ⟨fun h => absurd h (by decide), fun _ items' hitems' => ?_⟩, fun hc => ?_⟩
    · obtain rfl : items = items' := Value.list.inj (hitems.symm.trans hitems')
      exact hc
    · exact hc.2 rfl items hitems

theorem isSign_of_isDigit {c : Char} (h : c.isDigit) : isSign c = false := by
  have hascii : ∀ c : Char, c.toNat < 128 → c.isDigit = true → isSign c = false := Text.forall_ascii (by decide)
  have hle : c.toNat ≤ '9'.toNat := by
    simp only [Char.isDigit, Bool.and_eq_true, decide_eq_true_eq] at h
    exact h.2
  exact hascii c (Nat.lt_of_le_of_lt hle (by decide)) h

/-- The name of a stream that was given none. -/
theorem isName_stream (number : Nat) : IsName ("stream" ++ toString number) := by
  have hstream : IsBare "stream" := by decide
  refine ⟨by simp, fun c hc => ?_⟩
  rw [String.toList_append, show toString number = number.repr from rfl, Nat.toList_repr] at hc
  rcases mem_append.mp hc with hc | hc
  · exact hstream c hc
  · exact isSign_of_isDigit (Nat.isDigit_of_mem_toDigits (by decide) (by decide) hc)

theorem yields_branch (h : IsBranch c) : Yields (branch number c) fun b => IsTextName b.1 ∧ IsEven b.2 := by
  obtain ⟨fs, rfl, ⟨s, hs, hname⟩, e, he, heven⟩ := h
  obtain ⟨stream, hstream, hisName⟩ : ∃ stream, Fields.getD fs "name" (.text ("stream" ++ toString number)) = .text stream ∧
      IsName stream := by
    cases hget : Fields.get? fs "name" with
    | none => exact ⟨_, by rw [Fields.getD, hget]; rfl, isName_stream number⟩
    | some v =>
      rw [Fields.getD, hget] at hs ⊢
      exact ⟨s, hs, hname⟩
  refine .bind_ok (fieldD_ok hstream) <| .bind_ok (fieldD_ok he) <| .bind (yields_reviewExpression _ e) ?_
  rintro _ rfl
  exact .pure ⟨⟨stream, rfl, hisName⟩, heven⟩

theorem yields_branchesFrom (h : ∀ c ∈ cs, IsBranch c) :
    Yields (branchesFrom number cs) fun bs => ∀ b ∈ bs, IsTextName b.1 ∧ IsEven b.2 := by
  induction cs generalizing number with
  | nil => exact .pure (forall_mem_nil _)
  | cons c cs ih =>
    obtain ⟨hc, hcs⟩ := forall_mem_cons.mp h
    exact .bind (yields_branch hc) fun b hb => .bind (ih hcs) fun bs hbs => .pure (forall_mem_cons.mpr ⟨hb, hbs⟩)

theorem yields_splitBlock (hp : IsName p) (hn : IsNamed fs name)
    (h : ListAt fs "conditions" IsBranch) : Yields (splitBlock (.object fs) (.text p)) (Suits fs "ConditionalSplit" name) := by
  obtain ⟨cs, hcs, hall⟩ := h
  refine .bind_ok (field_ok hn.named) <| .bind_ok (fieldD_ok hcs) <| .bind_ok (conditionItems_list cs) <|
    .bind (yields_branchesFrom hall) fun bs hbs => ?_
  obtain ⟨streams, hstreams, hnames⟩ : ∃ streams : List String, bs.map (·.1) = streams.map .text ∧ ∀ a ∈ streams, IsName a :=
    exists_names (forall_mem_map.mpr fun b hb => (hbs b hb).1)
  have hjoin : Value.joinItems 0 (bs.map (·.1)) = .ok streams := by rw [hstreams, joinItems_texts]
  refine .bind_ok hjoin <| .pure (suits_of_parts ⟨hp, fun b hb => ?_, hn.isName⟩ rfl trivial (by decide))
  obtain ⟨⟨stream, b'⟩, hzip, rfl⟩ := mem_map.mp hb
  obtain ⟨hstream, hb'⟩ := of_mem_zip hzip
  exact ⟨hnames stream hstream, (hbs b' hb').2⟩

theorem isName_selectedColumn (h : IsSelected v) : IsName (selectedColumn v) := by
  rcases h with ⟨s, rfl, hs⟩ | ⟨fs, rfl, s, hs, hname⟩
  · exact hs
  · rw [selectedColumn, hs]
    exact hname

theorem exists_selectBlock (hp : IsName p) (hn : IsNamed fs name)
    (h : ListAt fs "columns" IsSelected) : ∃ b, selectBlock (.object fs) (.text p) = .ok b ∧ Suits fs "Select" name b := by
  obtain ⟨items, hitems, hall⟩ := h
  refine ⟨_, bind_eq_ok.mpr ⟨_, field_ok hn.named, bind_eq_ok.mpr ⟨_, fieldD_ok hitems, bind_eq_ok.mpr ⟨items, rfl, rfl⟩⟩⟩, ?_⟩
  have hcolumns := forall_mem_map.mpr fun v hv => isName_selectedColumn (hall v hv)
  exact suits_of_parts ⟨hp, hcolumns, hn.isName⟩ rfl trivial (by decide)

/-! ## Every kind of step -/

theorem yields_stepBlock (hearlier : ∀ step ∈ earlier, RenamesNames step) (hp : IsName p) (h : IsStep fs type name) :
    Yields (stepBlock (.object fs) (.text p) earlier) (Suits fs type name) := by
  obtain ⟨hn, htype, hparts⟩ := h
  refine .bind_ok (field_ok htype) <| .bind_ok (field_ok hn.named) ?_
  cases hparts with
  | derive hcolumns => exact yields_deriveBlock hearlier hp hn hcolumns
  | filter hcondition => exact yields_filterBlock hearlier hp hn hcondition
  | aggregate hgroups hcolumns => exact yields_aggregateBlock hearlier hp hn hgroups hcolumns
  | join hleft hright hkind hconditions => exact yields_joinBlock hn hleft hright hkind hconditions
  | sort hitems =>
    obtain ⟨b, hb, hsuits⟩ := exists_sortBlock hp hn hitems
    exact .ok hb hsuits
  | split hbranches => exact yields_splitBlock hp hn hbranches
  | lookup hmain htable hconditions =>
    obtain ⟨b, hb, hsuits⟩ := exists_lookupBlock hp hn hmain htable hconditions
    exact .ok hb hsuits
  | select hcolumns =>
    obtain ⟨b, hb, hsuits⟩ := exists_selectBlock hp hn hcolumns
    exact .ok hb hsuits

/-- A step that has names where names belong and even expressions gets a block, after any
    lookups that call names by names. The block has one arrow, on its last line and in front
    of the name of the step, closes what it opens and leaves no comma behind the last member
    of a list, exactly if the step completes what it begins. -/
theorem stepBlock_wellFormed_iff (h : IsStep fs type name) (hp : IsName p)
    (hearlier : ∀ step ∈ earlier, RenamesNames step) (g : State) :
    ∃ b g', Runs (stepBlock (.object fs) (.text p) earlier) g b g' ∧ (b.WellFormed name ↔ Completes fs type) := by
  obtain ⟨b, g', hrun, hparts, houtput, hcomplete⟩ := yields_stepBlock hearlier hp h g
  exact ⟨b, g', hrun, (houtput ▸ Block.wellFormed_iff hparts).trans hcomplete⟩

/-- Calls a column of its table by its qualified name. -/
def priceLookup : Value :=
  .object [("name", .text "lkp"), ("type", .text "Lookup"),
    ("columnDisambiguation", .object [("price", .text "lkp@price")])]

/-- Sums up a column of the lookup, and passes another on. -/
def dailyTotals : Fields :=
  [("name", .text "agg"), ("type", .text "Aggregate"), ("groupBy", .list [.text "id", .text "price"]),
    ("aggregates", .list [.object [("name", .text "total"), ("expression", .text "SUM(price)")],
      .object [("name", .text "day"), ("expression", .text "day")]])]

theorem dailyTotals_isStep : IsStep dailyTotals "Aggregate" "agg" where
  named := rfl
  isName := by decide
  typed := rfl
  parts := by
    refine .aggregate ⟨_, rfl, ?_⟩ ⟨_, rfl, ?_⟩
    · exact forall_mem_cons.mpr ⟨⟨"id", rfl, by decide⟩, forall_mem_singleton.mpr ⟨"price", rfl, by decide⟩⟩
    · exact forall_mem_cons.mpr ⟨⟨_, "total", rfl, rfl, by decide, "SUM(price)", rfl, by decide⟩,
        forall_mem_singleton.mpr ⟨_, "day", rfl, rfl, by decide, "day", rfl, by decide⟩⟩

theorem priceLookup_renamesNames : RenamesNames priceLookup := by
  refine ⟨_, rfl, fun _ => ⟨⟨_, rfl⟩, _, rfl, ?_⟩⟩
  exact forall_mem_singleton.mpr ⟨by decide, _, rfl, by decide⟩

theorem dailyTotals_wellFormed : Completes dailyTotals "Aggregate" ∧
    ∃ b g', Runs (stepBlock (.object dailyTotals) (.text "lkp") [priceLookup]) (.start .empty) b g' ∧
      b.lines = ["lkp aggregate(groupBy(id, lkp@price),", "     total = sum(lkp@price),", "     day = first(day)) ~> agg"] ∧
      b.WellFormed "agg" := by
  have hcompletes : Completes dailyTotals "Aggregate" := by
    refine ⟨fun _ h => ?_, fun h => absurd h (by decide)⟩
    cases h
  obtain ⟨b, g', hrun, hiff⟩ := stepBlock_wellFormed_iff dailyTotals_isStep (by decide : IsName "lkp")
    (List.forall_mem_singleton.mpr priceLookup_renamesNames) (.start .empty)
  have hblock : (outcome (stepBlock (.object dailyTotals) (.text "lkp") [priceLookup]) (.start .empty)).1.toOption =
      some (.aggregate "lkp" (some "id, lkp@price") [⟨"total", "sum(lkp@price)"⟩, ⟨"day", "first(day)"⟩] "agg") := by
    decide +kernel
  rw [hrun] at hblock
  obtain rfl := Option.some.inj hblock
  exact ⟨hcompletes, _, _, hrun, rfl, hiff.mpr hcompletes⟩

/-- Groups by a column and assigns nothing. -/
def bareGroups : Fields :=
  [("name", .text "agg"), ("type", .text "Aggregate"), ("groupBy", .list [.text "id"]), ("aggregates", .list [])]

/-- Leaves its last position out. -/
def lastOmitted : Fields :=
  [("name", .text "srt"), ("type", .text "Sort"),
    ("orderBy", .list [.object [("name", .text "id")], .object [("name", .text "")]])]

/-- An aggregate that assigns nothing is never closed, and a sort that leaves out its last
    position keeps the comma in front of it. -/
theorem incomplete_not_wellFormed : IsStep bareGroups "Aggregate" "agg" ∧ IsStep lastOmitted "Sort" "srt" ∧
    (∃ b, Runs (stepBlock (.object bareGroups) (.text "src") []) (.start .empty) b (.start .empty) ∧
      b.lines = ["src aggregate(groupBy(id),"] ∧ ¬b.WellFormed "agg") ∧
    ∃ b, Runs (stepBlock (.object lastOmitted) (.text "src") []) (.start .empty) b (.start .empty) ∧
      b.lines = ["src sort(", "\tasc(id, true),", ") ~> srt"] ∧ ¬b.WellFormed "srt" := by
  refine ⟨?_, ?_, ⟨.aggregate "src" (some "id") [] "agg", rfl, rfl, fun hw => ?_⟩,
    .sort "src" [some ⟨"asc", "id"⟩, none] "srt", rfl, rfl, fun hw => ?_⟩
  · refine ⟨⟨rfl, by decide⟩, rfl, .aggregate ⟨_, rfl, ?_⟩ ⟨[], rfl, List.forall_mem_nil _⟩⟩
    exact List.forall_mem_singleton.mpr ⟨"id", rfl, by decide⟩
  · refine ⟨⟨rfl, by decide⟩, rfl, .sort ⟨_, rfl, ?_⟩⟩
    have hfirst : IsPosition (.object [("name", .text "id")]) := ⟨.inr ⟨"id", rfl, by decide⟩, by decide⟩
    exact List.forall_mem_cons.mpr ⟨hfirst, List.forall_mem_singleton.mpr ⟨.inl rfl, by decide⟩⟩
  · exact absurd hw.arrow (by decide)
  · exact absurd hw.tidy (by decide)

end MappingFlow.Dataflow.Script
