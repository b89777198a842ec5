/-
  MappingFlow.Proofs.Conversion.Qualified — what a lookup calls its columns.

  A numbered column is called by the column of the lookup table that the number was put
  behind (`FromTable`), and a column that another one repeats with a number is called by the
  main stream (`FromMain`). The number itself is forgotten, so two columns that differ in the
  number only become one; that, and a main stream with the name of the table, are the only
  ways in which two columns get one name (`lookup_names_distinct_iff`).
-/

import MappingFlow.Proofs.Conversion.Numbered
import MappingFlow.Proofs.Document.Access
import MappingFlow.Proofs.Document.Fields
import MappingFlow.Proofs.Running

namespace MappingFlow.Conversion

open List

/-- The column stands for `base` of the lookup table. -/
structure FromTable (table : Value) (returned : List Value) (names : List String) (column base : String) : Prop where
  mem : column ∈ names
  numbered : IsNumbered base.toList column.toList
  table : table.isPresent = true
  returned : .text base ∈ returned

/-- The column is one of the main stream, which another column repeats with a number. -/
structure FromMain (main : Option String) (names : List String) (column stream : String) : Prop where
  mem : column ∈ names
  plain : ∀ base, ¬ IsNumbered base column.toList
  repeated : ∃ other ∈ names, IsNumbered column.toList other.toList
  main : main = some stream
  named : stream ≠ ""

variable {table : Value} {main : Option String} {returned : List Value} {names : List String} {column q : String}

theorem any_isText_iff : returned.any (·.isText s) ↔ .text s ∈ returned := by
  rw [any_eq_true]
  constructor
  · rintro ⟨v, hv, hs⟩
    rwa [← Value.isText_iff.mp hs]
  · exact fun h => ⟨_, h, Value.isText_iff.mpr rfl⟩

theorem qualifiedName?_eq_some_iff (hmem : column ∈ names) :
    qualifiedName? table main returned (names.filterMap numberedBase?) column = some q ↔
      (∃ base, FromTable table returned names column base ∧ q = table.display ++ "@" ++ base) ∨
        ∃ stream, FromMain main names column stream ∧ q = stream ++ "@" ++ column := by
  unfold qualifiedName?
  cases hbase : numberedBase? column with
  | some base =>
    have hnumbered := numberedBase?_eq_some_iff.mp hbase
    simp only [Option.ite_none_right_eq_some, Bool.and_eq_true, any_isText_iff, Option.some_inj]
    constructor
    · rintro ⟨⟨htable, hreturned⟩, rfl⟩
      exact .inl ⟨base, ⟨hmem, hnumbered, htable, hreturned⟩, rfl⟩
    · rintro (⟨base', h, rfl⟩ | ⟨stream, h, -⟩)
      · obtain rfl : base = base' := Option.some.inj (hbase.symm.trans (numberedBase?_eq_some_iff.mpr h.numbered))
        exact ⟨⟨h.table, h.returned⟩, rfl⟩
      · exact absurd hnumbered (h.plain _)
  | none =>
    have hplain := numberedBase?_eq_none_iff.mp hbase
    have hrepeated : (names.filterMap numberedBase?).contains column = true ↔
        ∃ other ∈ names, IsNumbered column.toList other.toList := by
      simp only [contains_iff_mem, mem_filterMap, numberedBase?_eq_some_iff]
    constructor
    · intro h
      obtain ⟨hcontains, h⟩ := Option.ite_none_right_eq_some.mp h
      cases main with
      | none => cases h
      | some stream =>
        obtain ⟨hnamed, hq⟩ := Option.ite_none_left_eq_some.mp h
        exact .inr ⟨stream, ⟨hmem, hplain, hrepeated.mp hcontains, rfl, hnamed⟩, (Option.some.inj hq).symm⟩
    · rintro (⟨base, h, -⟩ | ⟨stream, h, rfl⟩)
      · exact absurd h.numbered (hplain _)
      · simp only [hrepeated.mpr h.repeated, h.main, if_neg h.named, if_true]

/-! ## All columns -/

/-- The column with its name, if it has one. -/
def entered (fs : Fields) (column : String) : Option String → Fields
  | some q => fs.insert column (.text q)
  | none => fs

theorem get?_entered (fs column other o) :
    (entered fs column o).get? other = if column = other then (o.map .text).or (fs.get? other) else fs.get? other := by
  cases o with
  | none => simp [entered]
  | some q => simp [entered, Fields.get?_insert]

theorem get?_foldl_entered {f : String → Option String} :
    (names.foldl (fun fs name => entered fs name (f name)) init).get? column =
      if column ∈ names then ((f column).map .text).or (init.get? column) else init.get? column := by
  induction names generalizing init with
  | nil => rfl
  | cons name names ih =>
    rw [foldl_cons, ih, get?_entered]
    by_cases hname : name = column
    · subst hname
      rw [if_pos mem_cons_self, if_pos rfl]
      cases f name <;> simp
    · simp only [if_neg hname, mem_cons, Ne.symm hname, false_or]

theorem qualifiedNames_eq (table : Value) (main returned names) :
    qualifiedNames table main returned names = names.foldl (fun fs name =>
      entered fs name (qualifiedName? table main returned (names.filterMap numberedBase?) name)) [] := by
  refine congrArg (names.foldl · []) (funext fun fs => funext fun name => ?_)
  cases qualifiedName? table main returned (names.filterMap numberedBase?) name <;> rfl

/-- A column is found under the name that its origin gives it. -/
theorem get?_qualifiedNames : (qualifiedNames table main returned names).get? column = some v ↔
    (∃ base, FromTable table returned names column base ∧ v = .text (table.display ++ "@" ++ base)) ∨
      ∃ stream, FromMain main names column stream ∧ v = .text (stream ++ "@" ++ column) := by
  rw [qualifiedNames_eq, get?_foldl_entered]
  by_cases hmem : column ∈ names
  · rw [if_pos hmem, show (Fields.get? [] column) = none from rfl, Option.or_none, Option.map_eq_some_iff]
    simp only [qualifiedName?_eq_some_iff hmem]
    constructor
    · rintro ⟨q, ⟨base, h, rfl⟩ | ⟨stream, h, rfl⟩, rfl⟩
      · exact .inl ⟨base, h, rfl⟩
      · exact .inr ⟨stream, h, rfl⟩
    · rintro (⟨base, h, rfl⟩ | ⟨stream, h, rfl⟩)
      · exact ⟨_, .inl ⟨base, h, rfl⟩, rfl⟩
      · exact ⟨_, .inr ⟨stream, h, rfl⟩, rfl⟩
  · rw [if_neg hmem]
    refine iff_of_false nofun ?_
    rintro (⟨base, h, -⟩ | ⟨stream, h, -⟩)
    · exact hmem h.mem
    · exact hmem h.mem

/-- No two columns are called by one name. -/
def KeepsApart (fs : Fields) : Prop := ∀ a b v, fs.get? a = some v → fs.get? b = some v → a = b

theorem qualifiedNames_keepsApart_iff : KeepsApart (qualifiedNames table main returned names) ↔
    (∀ a b base, FromTable table returned names a base → FromTable table returned names b base → a = b) ∧
      ∀ a base b stream, FromTable table returned names a base → FromMain main names b stream →
        table.display ++ "@" ++ base ≠ stream ++ "@" ++ b := by
  constructor
  · intro h
    refine ⟨fun a b base ha hb => ?_, fun a base b stream ha hb heq => ?_⟩
    · exact h a b _ (get?_qualifiedNames.mpr (.inl ⟨base, ha, rfl⟩)) (get?_qualifiedNames.mpr (.inl ⟨base, hb, rfl⟩))
    · have hsame := h a b _ (get?_qualifiedNames.mpr (.inl ⟨base, ha, rfl⟩))
        (get?_qualifiedNames.mpr (.inr ⟨stream, hb, congrArg Value.text heq⟩))
      exact hb.plain _ (hsame ▸ ha.numbered)
  · rintro ⟨htable, hmain⟩ a b v hfirst hsecond
    rcases get?_qualifiedNames.mp hfirst with ⟨base, ha, rfl⟩ | ⟨stream, ha, rfl⟩
    · rcases get?_qualifiedNames.mp hsecond with ⟨base', hb, heq⟩ | ⟨stream, hb, heq⟩
      · obtain rfl : base = base' := (String.append_right_inj _).mp (Value.text.inj heq)
        exact htable a b base ha hb
      · exact absurd (Value.text.inj heq) (hmain a base b stream ha hb)
    · rcases get?_qualifiedNames.mp hsecond with ⟨base, hb, heq⟩ | ⟨stream', hb, heq⟩
      · exact absurd (Value.text.inj heq).symm (hmain b base a stream hb ha)
      · obtain rfl : stream = stream' := Option.some.inj (ha.main.symm.trans hb.main)
        exact (String.append_right_inj _).mp (Value.text.inj heq)

/-! ## The step of a lookup -/

theorem lookupStep_runs (t) (type : Value) {comparisons : Value}
    (hconditions : conditions (property t "lookup_condition" (.text "")) = .ok comparisons)
    (hmain : Runs (mainInput t.name) s main s₀) (hrows : (property t "return_fields" (.list [])).items = .ok rows)
    (hreturned : rows.mapM returnedName = .ok returned) :
    ∃ (fs : Fields) (s' : State), Runs (lookupStep t type) s (.object fs) s' ∧ fs.get? "columnDisambiguation" =
      some (.object (qualifiedNames (property t "lookup_table" .null) main returned (t.columns.map (·.name)))) := by
  have hoverride : Yields (overrideMembers t) fun _ => True :=
    .ite (fun _ => .bind (.modify _) fun _ _ => .pure trivial) fun _ => .pure trivial
  have hfile : Yields (fileMembers t) fun _ => True :=
    .ite (fun _ => .bind (.modify _) fun _ _ => .pure trivial) fun _ => .pure trivial
  have hpolicy : Yields (policyNote t) fun _ => True := .ite (fun _ => .pure trivial) fun _ => .modify _
  obtain ⟨override, s₁, hoverride, -⟩ := hoverride s₀
  obtain ⟨file, s₂, hfile, -⟩ := hfile s₁
  obtain ⟨_, s₃, hpolicy, -⟩ := hpolicy s₂
  exact ⟨_, s₃, Runs.bind_lift_iff.mpr ⟨_, hconditions, Runs.bind_iff.mpr ⟨_, _, hmain,
    Runs.bind_lift_iff.mpr ⟨_, hrows, Runs.bind_lift_iff.mpr ⟨_, hreturned, Runs.bind_iff.mpr ⟨_, _, hoverride,
      Runs.bind_iff.mpr ⟨_, _, hfile, Runs.bind_iff.mpr ⟨_, _, hpolicy, Runs.pure_iff.mpr ⟨rfl, rfl⟩⟩⟩⟩⟩⟩⟩⟩, rfl⟩

/-- A lookup that can be converted calls its columns by their origin. No two get one name exactly
if no two differ in their number only, where both stand for a column that is returned, and no
such column is called like one of the main stream. -/
theorem lookup_names_distinct_iff (t : Transformation) (type : Value) (s s₀ : State) (table comparisons : Value)
    (main : Option String) (rows returned : List Value) (columns : List String)
    (htable : property t "lookup_table" .null = table) (hcolumns : t.columns.map (·.name) = columns)
    (hconditions : conditions (property t "lookup_condition" (.text "")) = .ok comparisons)
    (hmain : Runs (mainInput t.name) s main s₀) (hrows : (property t "return_fields" (.list [])).items = .ok rows)
    (hreturned : rows.mapM returnedName = .ok returned) :
    ∃ (fs names : Fields) (s' : State), Runs (lookupStep t type) s (.object fs) s' ∧
      fs.get? "columnDisambiguation" = some (.object names) ∧
      (∀ column v, names.get? column = some v ↔
        (∃ base, FromTable table returned columns column base ∧ v = .text (table.display ++ "@" ++ base)) ∨
          ∃ stream, FromMain main columns column stream ∧ v = .text (stream ++ "@" ++ column)) ∧
      (KeepsApart names ↔
        (∀ a b base, FromTable table returned columns a base → FromTable table returned columns b base → a = b) ∧
          ∀ a base b stream, FromTable table returned columns a base → FromMain main columns b stream →
            table.display ++ "@" ++ base ≠ stream ++ "@" ++ b) := by
  subst htable hcolumns
  obtain ⟨fs, s', hrun, hnames⟩ := lookupStep_runs t type hconditions hmain hrows hreturned
  exact ⟨fs, _, s', hrun, hnames, fun _ _ => get?_qualifiedNames, qualifiedNames_keepsApart_iff⟩

/-- Promotions looked up for sales; both have a key. -/
def promotions : Transformation where
  name := "lkp_PROMOTIONS"
  type := "Lookup Procedure"
  description := none
  columns := ["QTY", "PROMO_ID", "PROMO_ID1", "DISCOUNT1"].map fun name => ⟨name, "string", 0, 0, none, none⟩
  properties := [("lookup_table", .text "PROMOTIONS"), ("lookup_condition", .text "PROMO_ID1 = PROMO_ID"),
    ("return_fields", .list [.object [("name", .text "PROMO_ID")], .object [("name", .text "DISCOUNT")]])]

def salesMapping : Mapping where
  name := "m_SALES"
  description := none
  version := standardVersion
  sources := [⟨"SALES", "Oracle", none, [], []⟩]
  targets := []
  transformations := [promotions]
  connectors := [⟨"SALES", "lkp_PROMOTIONS", [], []⟩]
  properties := []

def salesState : State := { State.start with feeds := feedsOf salesMapping.connectors, mapping := some salesMapping }

theorem promotions_fromTable (h : FromTable table returned (promotions.columns.map (·.name)) a base) :
    a = "PROMO_ID1" ∧ base = "PROMO_ID" ∨ a = "DISCOUNT1" ∧ base = "DISCOUNT" := by
  have hbase := numberedBase?_eq_some_iff.mpr h.numbered
  have hmem : a ∈ ["QTY", "PROMO_ID", "PROMO_ID1", "DISCOUNT1"] := h.mem
  simp only [mem_cons, not_mem_nil, or_false] at hmem
  rcases hmem with rfl | rfl | rfl | rfl
  · cases hbase.symm.trans (show numberedBase? "QTY" = none by decide +kernel)
  · cases hbase.symm.trans (show numberedBase? "PROMO_ID" = none by decide +kernel)
  · exact .inl ⟨rfl, Option.some.inj (hbase.symm.trans (by decide +kernel))⟩
  · exact .inr ⟨rfl, Option.some.inj (hbase.symm.trans (by decide +kernel))⟩

/-- The columns of the table are told from those of the sales, and from each other. -/
theorem promotions_kept_apart : ∃ (fs names : Fields) (s' : State),
    Runs (lookupStep promotions (.text "Lookup")) salesState (.object fs) s' ∧
    fs.get? "columnDisambiguation" = some (.object names) ∧ KeepsApart names := by
  obtain ⟨fs, names, s', hrun, hnames, -, hiff⟩ := lookup_names_distinct_iff promotions (.text "Lookup") salesState _
    (.text "PROMOTIONS") _ (some "SALES") _ _ _ rfl rfl rfl rfl rfl rfl
  refine ⟨fs, names, s', hrun, hnames, hiff.mpr ⟨?_, ?_⟩⟩
  · intro a b base ha hb
    rcases promotions_fromTable ha with ⟨rfl, rfl⟩ | ⟨rfl, rfl⟩ <;>
      rcases promotions_fromTable hb with ⟨rfl, h⟩ | ⟨rfl, h⟩ <;> first | rfl | exact absurd h (by decide)
  · intro a base b stream ha hb heq
    obtain rfl : "SALES" = stream := Option.some.inj hb.main
    have hhead := congrArg (·.toList.head?) heq
    simp [Value.display] at hhead

/-- A third promotion beside the one of the table and the one of the main stream. -/
def twinPromotions : Transformation where
  name := "lkp_DIM_PROMOTIONS"
  type := "Lookup Procedure"
  description := none
  columns := ["PROMO_ID", "PROMO_ID1", "PROMO_ID2"].map fun name => ⟨name, "string", 0, 0, none, none⟩
  properties := [("lookup_table", .text "DIM_PROMOTIONS"), ("return_fields", .list [.text "PROMO_ID"])]

/-- The second and the third are read as one. -/
theorem twinPromotions_merged : (twinPromotions.columns.map (·.name)).Nodup ∧
    ∃ (fs names : Fields) (s' : State), Runs (lookupStep twinPromotions (.text "Lookup")) State.start (.object fs) s' ∧
      fs.get? "columnDisambiguation" = some (.object names) ∧
      names.get? "PROMO_ID1" = some (.text "DIM_PROMOTIONS@PROMO_ID") ∧
      names.get? "PROMO_ID2" = some (.text "DIM_PROMOTIONS@PROMO_ID") ∧ ¬ KeepsApart names := by
  obtain ⟨fs, s', hrun, hnames⟩ := lookupStep_runs twinPromotions (.text "Lookup") (s := State.start) rfl rfl rfl rfl
  have hname (column : String) (hmem : column ∈ ["PROMO_ID", "PROMO_ID1", "PROMO_ID2"])
      (hbase : numberedBase? column = some "PROMO_ID") : (qualifiedNames (.text "DIM_PROMOTIONS") none
        [.text "PROMO_ID"] ["PROMO_ID", "PROMO_ID1", "PROMO_ID2"]).get? column = some (.text "DIM_PROMOTIONS@PROMO_ID") :=
    get?_qualifiedNames.mpr (.inl ⟨"PROMO_ID", ⟨hmem, numberedBase?_eq_some_iff.mp hbase, rfl, .head _⟩, rfl⟩)
  have hfirst := hname "PROMO_ID1" (by decide) (by decide +kernel)
  have hsecond := hname "PROMO_ID2" (by decide) (by decide +kernel)
  exact ⟨by decide, fs, _, s', hrun, hnames, hfirst, hsecond, fun h => absurd (h _ _ _ hfirst hsecond) (by decide)⟩

end MappingFlow.Conversion
