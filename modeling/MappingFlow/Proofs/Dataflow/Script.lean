/-
  MappingFlow.Proofs.Dataflow.Script — which streams the block of a step reads and
  introduces.

  A join reads its two inputs, or placeholders where it has none; a lookup reads its
  input, or else the stream before it, and its table; every other step reads the stream
  before it (`stepInputs`). An aggregate that has nothing to compute introduces no stream
  (`isUnclosed`). This holds of every step, whatever its members are
  (`stepBlock_blockFor`). So the block of a converted step is as the transformation says
  (`stepBlock_blockOf`), whatever was written before.
-/

import MappingFlow.Dataflow.Script
import MappingFlow.Proofs.Conversion.Steps
import MappingFlow.Proofs.Dataflow.Block

namespace MappingFlow

open Conversion Dataflow

variable {key : String}

/-- The name, unless it is missing or empty. -/
def nameOr (absent : String) : Option String → String
  | some s => if s = "" then absent else s
  | none => absent

def Rules.isKind (r : Rules) (kind : String) (t : Transformation) : Bool := (r.kind? t.type).any (·.isText kind)

/-- The types of step whose block takes one stream. -/
def oneInputTypes : List String := ["DerivedColumn", "Filter", "Aggregate", "Sort", "ConditionalSplit"]

/-- The transformation becomes an operation that reads one stream. -/
def Rules.takesOne (r : Rules) (t : Transformation) : Bool :=
  (r.kind? t.type).any (·.isOneOf oneInputTypes)

/-- The step closes without a stream of its own. -/
def Rules.isSilent (r : Rules) (t : Transformation) : Bool :=
  r.isKind "Aggregate" t && !(isAggregator t && hasAggregates t)

namespace Mapping

variable (m : Mapping) (t : Transformation)

def leftInput : String := nameOr "MISSING_LEFT_INPUT" (if isJoiner t then (m.joinInputs t.name).1 else none)

def rightInput : String := nameOr "MISSING_RIGHT_INPUT" (if isJoiner t then (m.joinInputs t.name).2 else none)

def mainInput (previous : String) : String := nameOr previous (if isLookup t then m.lookupInput t.name else none)

def lookupTable : String :=
  if isLookup t then (property t "lookup_table" .null).display else "UnknownLookupSource"

/-- The streams that the block of a transformation reads, where `previous` stands before it. -/
def inputs (r : Rules) (previous : String) : List String :=
  if r.isKind "Join" t then [m.leftInput t, m.rightInput t]
  else if r.isKind "Lookup" t then [m.mainInput t previous, lookupTable t]
  else [previous]

end Mapping

theorem Rules.isKind_of_takesOne {r : Rules} (h : r.takesOne t) {kind : String}
    (hkind : kind ∉ oneInputTypes) : r.isKind kind t = false := by
  unfold Rules.takesOne at h
  unfold Rules.isKind
  cases hv : r.kind? t.type with
  | none => rfl
  | some v =>
    rw [hv] at h
    obtain ⟨word, hword, heq⟩ := List.any_eq_true.mp (show v.isOneOf oneInputTypes = true from h)
    cases v with
    | text s =>
      obtain rfl : s = word := beq_iff_eq.mp heq
      exact beq_eq_false_iff_ne.mpr fun hs => hkind (hs ▸ hword)
    | _ => cases heq

theorem Mapping.inputs_of_takesOne (m : Mapping) {r : Rules} (h : r.takesOne t)
    (previous : String) : m.inputs t r previous = [previous] := by
  simp only [Mapping.inputs, Rules.isKind_of_takesOne h (by decide : "Join" ∉ oneInputTypes),
    Rules.isKind_of_takesOne h (by decide : "Lookup" ∉ oneInputTypes), Bool.false_eq_true, if_false]

/-- The block reads and introduces what its transformation says. -/
structure BlockOf (m : Mapping) (r : Rules) (previous : String) (t : Transformation) (b : Block) : Prop where
  output : b.output = t.name
  inputs : b.inputs = m.inputs t r previous
  introduces : b.introduces = if r.isSilent t then none else some t.name
  takesOne : b.takesOne = r.takesOne t

namespace Dataflow.Script

variable {r : Rules} {fs : Fields}

theorem field_ok (h : fs.get? key = some v) : (Value.object fs).field key = .ok v := by
  simp [Value.field, h]

theorem fieldD_ok (h : (fs.get? key).getD absent = v) :
    (Value.object fs).fieldD key absent = .ok v := congrArg Except.ok h

theorem conditionItems_list (vs) : conditionItems (.list vs) = .ok vs := by
  cases vs <;> rfl

/-! ## Blocks of any step -/

section

variable {step name previous : Value}

theorem deriveBlock_eq (hname : step.field "name" = .ok name) :
    Answers (deriveBlock step previous earlier) fun b => ∃ columns, b = .derive previous.display columns name.display :=
  .bind_ok hname <| .after fun _ => .after fun _ => .after fun _ => .after fun columns => .pure ⟨columns, rfl⟩

theorem filterBlock_eq (hname : step.field "name" = .ok name) : Answers (filterBlock step previous earlier) fun b =>
      ∃ condition, b = .filter previous.display condition name.display :=
  .bind_ok hname <| .after fun _ => .after fun _ => .after fun condition => .pure ⟨condition, rfl⟩

theorem aggregateColumns_isEmpty (items) :
    Answers (aggregateColumns earlier items) fun columns => columns.isEmpty = items.isEmpty := by
  cases items with
  | nil => exact .pure rfl
  | cons c items => exact .after fun _ => .after fun _ => .pure rfl

theorem aggregateBlock_eq (hname : (Value.object fs).field "name" = .ok name) :
    Answers (aggregateBlock (.object fs) previous earlier) fun b => ∃ groups columns,
      b = .aggregate previous.display groups columns name.display ∧
        columns.isEmpty = !(fs.getD "aggregates" (.list [])).isPresent := by
  refine .bind_ok hname <| .after fun _ => .bind_ok (fieldD_ok rfl) <| .after fun groups => ?_
  refine .bind (.lift fun items hitems => items_isEmpty hitems) fun items hitems => ?_
  exact .bind (aggregateColumns_isEmpty items) fun columns hcolumns => .pure ⟨groups, columns, rfl, hcolumns.trans hitems⟩

theorem joinBlock_eq (hname : (Value.object fs).field "name" = .ok name) :
    Answers (joinBlock (.object fs)) fun b => ∃ conditions kind,
      b = .join ((fs.getD "leftInput" .null).orElse (.text "MISSING_LEFT_INPUT")).display
        ((fs.getD "rightInput" .null).orElse (.text "MISSING_RIGHT_INPUT")).display conditions kind name.display := by
  refine .bind_ok hname <| .after fun kind => .after fun conditions => ?_
  refine .bind_ok (fieldD_ok rfl) <| .bind_ok (fieldD_ok rfl) ?_
  -- Both notes are left behind; the block is the same with and without them.
  refine .ite (fun _ => .after fun _ => ?_) fun _ => ?_
  · refine .ite (fun _ => .after fun _ => ?_) fun _ => ?_
    · exact .after fun _ => .after fun pairs => .pure ⟨_, _, rfl⟩
    · exact .after fun _ => .after fun pairs => .pure ⟨_, _, rfl⟩
  · refine .ite (fun _ => .after fun _ => ?_) fun _ => ?_
    · exact .after fun _ => .after fun pairs => .pure ⟨_, _, rfl⟩
    · exact .after fun _ => .after fun pairs => .pure ⟨_, _, rfl⟩

theorem lookupBlock_eq (hname : (Value.object fs).field "name" = .ok name)
    (hb : lookupBlock (.object fs) previous = .ok b) :
    ∃ conditions, b = .lookup ((fs.getD "mainInput" .null).orElse previous).display
      (fs.getD "lookupDataset" (.text "UnknownLookupSource")).display conditions name.display := by
  have hb := of_ok_bind hname hb
  obtain ⟨conditions, -, hb⟩ := bind_eq_ok.mp hb
  have hb := of_ok_bind (fieldD_ok rfl) hb
  have hb := of_ok_bind (fieldD_ok rfl) hb
  obtain ⟨items, -, hb⟩ := bind_eq_ok.mp hb
  obtain ⟨pairs, -, hb⟩ := bind_eq_ok.mp hb
  exact ⟨pairs, (Except.ok.inj hb).symm⟩

theorem sortBlock_eq (hname : step.field "name" = .ok name) (hb : sortBlock step previous = .ok b) :
    ∃ columns, b = .sort previous.display columns name.display := by
  have hb := of_ok_bind hname hb
  obtain ⟨orderBy, -, hb⟩ := bind_eq_ok.mp hb
  obtain ⟨items, -, hb⟩ := bind_eq_ok.mp hb
  obtain ⟨columns, -, hb⟩ := bind_eq_ok.mp hb
  exact ⟨columns, (Except.ok.inj hb).symm⟩

theorem selectBlock_eq (hname : step.field "name" = .ok name) (hb : selectBlock step previous = .ok b) :
    ∃ columns, b = .select previous.display columns name.display := by
  have hb := of_ok_bind hname hb
  obtain ⟨columns, -, hb⟩ := bind_eq_ok.mp hb
  obtain ⟨items, -, hb⟩ := bind_eq_ok.mp hb
  exact ⟨_, (Except.ok.inj hb).symm⟩

theorem splitBlock_eq (hname : step.field "name" = .ok name) :
    Answers (splitBlock step previous) fun b => ∃ branches, b = .split previous.display branches name.display :=
  .bind_ok hname <| .after fun _ => .after fun _ => .after fun _ => .after fun _ => .pure ⟨_, rfl⟩

/-! ## Every kind of step -/

/-- The streams that the block of a step reads, where `previous` stands before it. -/
def stepInputs (fs : Fields) (type previous : Value) : List String :=
  if type.isText "Join" then
    [((fs.getD "leftInput" .null).orElse (.text "MISSING_LEFT_INPUT")).display,
     ((fs.getD "rightInput" .null).orElse (.text "MISSING_RIGHT_INPUT")).display]
  else if type.isText "Lookup" then
    [((fs.getD "mainInput" .null).orElse previous).display,
     (fs.getD "lookupDataset" (.text "UnknownLookupSource")).display]
  else [previous.display]

/-- An aggregate that has nothing to compute. -/
def isUnclosed (fs : Fields) (type : Value) : Bool :=
  type.isText "Aggregate" && !(fs.getD "aggregates" (.list [])).isPresent

/-- The block reads and introduces what its step says, and neither begins nor ends a script. -/
structure BlockFor (fs : Fields) (type name previous : Value) (b : Block) : Prop where
  output : b.output = name.display
  inputs : b.inputs = stepInputs fs type previous
  introduces : b.introduces = if isUnclosed fs type then none else some name.display
  takesOne : b.takesOne = type.isOneOf oneInputTypes
  between : b.operation ∉ ["source(", "sink("]

/-- A block that reads only what stands before it, and introduces a stream. -/
theorem blockFor_plain (hj : type.isText "Join" = false) (hl : type.isText "Lookup" = false)
    (ha : type.isText "Aggregate" = false) (houtput : b.output = name.display)
    (hinputs : b.inputs = [previous.display]) (hintroduces : b.introduces = some name.display)
    (htakes : b.takesOne = type.isOneOf oneInputTypes) (hbetween : b.operation ∉ ["source(", "sink("]) :
    BlockFor fs type name previous b where
  output := houtput
  inputs := by simp [stepInputs, hj, hl, hinputs]
  introduces := by simp [isUnclosed, ha, hintroduces]
  takesOne := htakes
  between := hbetween

theorem stepBlock_blockFor (hname : fs.get? "name" = some name) (htype : fs.get? "type" = some type) :
    Answers (stepBlock (.object fs) previous earlier) (BlockFor fs type name previous) := by
  have hname := field_ok hname
  refine .bind_ok (field_ok htype) <| .bind_ok hname ?_
  split
  · refine (deriveBlock_eq hname).imp ?_
    rintro _ ⟨columns, rfl⟩
    exact blockFor_plain rfl rfl rfl rfl rfl rfl rfl (by simp [Block.operation])
  · refine (filterBlock_eq hname).imp ?_
    rintro _ ⟨condition, rfl⟩
    exact blockFor_plain rfl rfl rfl rfl rfl rfl rfl (by simp [Block.operation])
  · refine (aggregateBlock_eq hname).imp ?_
    rintro _ ⟨groups, columns, rfl, hcolumns⟩
    refine ⟨rfl, rfl, ?_, rfl, by simp [Block.operation]⟩
    rw [Block.introduces_aggregate, hcolumns]
    rfl
  · refine (joinBlock_eq hname).imp ?_
    rintro _ ⟨conditions, kind, rfl⟩
    exact ⟨rfl, rfl, rfl, rfl, by simp [Block.operation]⟩
  · refine .lift fun b hb => ?_
    obtain ⟨columns, rfl⟩ := sortBlock_eq hname hb
    exact blockFor_plain rfl rfl rfl rfl rfl rfl rfl (by simp [Block.operation])
  · refine (splitBlock_eq hname).imp ?_
    rintro _ ⟨branches, rfl⟩
    exact blockFor_plain rfl rfl rfl rfl rfl rfl rfl (by simp [Block.operation])
  · refine .lift fun b hb => ?_
    obtain ⟨conditions, rfl⟩ := lookupBlock_eq hname hb
    exact ⟨rfl, rfl, rfl, rfl, by simp [Block.operation]⟩
  · refine .lift fun b hb => ?_
    obtain ⟨columns, rfl⟩ := selectBlock_eq hname hb
    exact blockFor_plain rfl rfl rfl rfl rfl rfl rfl (by simp [Block.operation])
  · rename_i hd hf ha hj hs hc hl _
    have other : ∀ kind, (type = .text kind → False) → type.isText kind = false := by
      intro kind hne
      cases type with
      | text s => exact beq_eq_false_iff_ne.mpr fun hs => hne (by rw [hs])
      | _ => rfl
    have htakes : false = type.isOneOf oneInputTypes := by
      simp [Value.isOneOf, oneInputTypes, other _ hd, other _ hf, other _ ha, other _ hs, other _ hc]
    exact .pure (blockFor_plain (other _ hj) (other _ hl) (other _ ha) rfl rfl rfl htakes (by simp [Block.operation]))

end

/-! ## Steps of transformations -/

theorem orElse_text (o absent) : (Value.ofOption o).orElse (.text absent) = .text (nameOr absent o) := by
  cases o with
  | none => rfl
  | some s => by_cases hs : s = "" <;> simp [Value.orElse, Value.ofOption, Value.isPresent, nameOr, hs]

theorem getD_of_if {b : Bool} (h : fs.get? key = if b then some (.ofOption o) else none) :
    fs.getD key .null = .ofOption (if b then o else none) := by
  rw [Fields.getD, h]
  cases b <;> rfl

theorem isKind_eq (hkind : r.kind? t.type = some type) (kind) : r.isKind kind t = type.isText kind := by
  rw [Rules.isKind, hkind, Option.any_some]

theorem stepInputs_eq (h : StepOf m t type fs) (hkind : r.kind? t.type = some type) :
    stepInputs fs type (.text p) = m.inputs t r p := by
  have htable : (fs.getD "lookupDataset" (.text "UnknownLookupSource")).display = Mapping.lookupTable t := by
    rw [Fields.getD, h.table, Mapping.lookupTable]
    cases isLookup t <;> rfl
  rw [stepInputs, getD_of_if h.left, getD_of_if h.right, getD_of_if h.main, htable, orElse_text, orElse_text, orElse_text,
    Mapping.inputs, isKind_eq hkind, isKind_eq hkind]
  rfl

theorem isUnclosed_eq (h : StepOf m t type fs) (hkind : r.kind? t.type = some type) :
    isUnclosed fs type = r.isSilent t := by
  have haggregates : (fs.getD "aggregates" (.list [])).isPresent = (isAggregator t && hasAggregates t) := by
    have hagg := h.aggregates
    rw [Fields.getD]
    split at hagg
    · rename_i ha
      obtain ⟨items, hget, hempty⟩ := hagg
      rw [hget, ha, Bool.true_and, Option.getD_some, Value.isPresent, hempty, Bool.not_not]
    · rename_i ha
      rw [hagg, Bool.eq_false_iff.mpr ha]
      rfl
  rw [isUnclosed, haggregates, Rules.isSilent, isKind_eq hkind]

theorem stepBlock_blockOf (h : StepOf m t type fs) (hkind : r.kind? t.type = some type) :
    Answers (stepBlock (.object fs) (.text p) earlier) (BlockOf m r p t) := by
  refine (stepBlock_blockFor h.name h.type).imp fun b hb => ⟨hb.output, ?_, ?_, ?_⟩
  · rw [hb.inputs, stepInputs_eq h hkind]
  · rw [hb.introduces, isUnclosed_eq h hkind]
    rfl
  · rw [hb.takesOne, Rules.takesOne, hkind, Option.any_some]

end Dataflow.Script

end MappingFlow
