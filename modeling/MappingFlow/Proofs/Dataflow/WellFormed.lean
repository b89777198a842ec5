/-
  MappingFlow.Proofs.Dataflow.WellFormed — which blocks are well formed.

  A block is well formed if its one `~>` closes it, its parentheses are even and no list in
  it ends in a comma. An expression counts as one word for the commas: those inside it are
  not the block's.

  - `writes_lines`: the lines of a block that is closed add one arrow and no parenthesis, and
    only a sort can leave a comma in front of its closing parenthesis.
  - `wellFormed_iff`: a block of names and even expressions is well formed exactly if it is
    `IsComplete`, that is unless it is an aggregate without columns, or a sort that leaves out
    its last column and keeps one before it.
-/

import MappingFlow.Proofs.Dataflow.Block
import MappingFlow.Proofs.Dataflow.Punctuation

namespace MappingFlow.Dataflow.Block

open List

variable {name input : String} {α : Type} {as : List α} {write mask : α → String}

/-! ## Lists of lines -/

/-- With a comma after each line but the last. -/
theorem writes_listed (h : ∀ a ∈ as, Writes (write a).toList (mask a).toList 0 0 Commas.cleared) :
    Writes (written (listed (as.map write))) (written (listed (as.map mask))) 0 0
      fun s => ⟨s.pending && as.isEmpty, s.dangling⟩ := by
  induction as with
  | nil => exact writes_none.of_eq fun s => by simp
  | cons a as ih =>
    obtain ⟨ha, has⟩ := forall_mem_cons.mp h
    cases as with
    | nil => exact ha.line.of_eq fun s => by simp [Commas.cleared]
    | cons b as => exact (ha.comma.lines (ih has)).of_eq fun s => by simp

theorem writes_tabbed (h : ∀ a ∈ as, Writes (write a).toList (mask a).toList 0 0 Commas.cleared) :
    Writes (written (listed (as.map fun a => "\t\t" ++ write a))) (written (listed (as.map fun a => "\t\t" ++ mask a))) 0 0
      fun s => ⟨s.pending && as.isEmpty, s.dangling⟩ :=
  writes_listed fun a ha => (Writes.literal "\t\t" 0 0 (by decide)).str (h a ha)

/-- With a comma after each line. -/
theorem writes_each (h : ∀ a ∈ as, Writes (write a).toList (mask a).toList 0 0 Commas.cleared) :
    Writes (written (as.map fun a => write a ++ ",")) (written (as.map fun a => mask a ++ ",")) 0 0
      fun s => ⟨!as.isEmpty || s.pending, s.dangling⟩ := by
  induction as with
  | nil => exact writes_none
  | cons a as ih =>
    obtain ⟨ha, has⟩ := forall_mem_cons.mp h
    refine (ha.comma.lines (ih has)).of_eq fun s => ?_
    exact congrArg (Commas.mk · s.dangling) (Bool.or_true _)

/-- The first member stands on the opening line. -/
def openedLines (opening : String) (write : α → String) : List α → List String
  | [] => [opening]
  | a :: as => (opening ++ write a ++ ",") :: as.map fun a => "     " ++ write a ++ ","

theorem writes_openedLines {opening : String} (hopening : Writes opening.toList opening.toList 1 0 Commas.cleared)
    (h : ∀ a ∈ as, Writes (opening ++ write a).toList (opening ++ mask a).toList 1 0 Commas.cleared ∧
      Writes ("     " ++ write a).toList ("     " ++ mask a).toList 0 0 Commas.cleared) :
    Writes (written (openedLines opening write as)) (written (openedLines opening mask as)) 1 0
      fun s => ⟨!as.isEmpty, s.dangling⟩ := by
  cases as with
  | nil => exact hopening.line
  | cons a as =>
    obtain ⟨ha, has⟩ := forall_mem_cons.mp h
    refine (ha.1.comma.lines (writes_each fun c hc => (has c hc).2)).of_eq fun s => ?_
    exact congrArg (Commas.mk · s.dangling) (Bool.or_true _)

/-! ### Comparisons -/

theorem comparisonLines_eq (opening write pairs) :
    comparisonLines opening write pairs = openedLines opening write pairs := by cases pairs <;> rfl

theorem writes_equation (hl : IsName left) (hr : IsName right) (hc : IsBare c.left ∧ IsBare c.right) :
    Writes (equation left right c).toList (equation left right c).toList 0 0 Commas.cleared := by
  have hat := Writes.literal "@" 0 0 (by decide)
  have hleft := (hl.writes.str hat).bare (fun _ => rfl) hc.1
  have hright := (hr.writes.str hat).bare (fun _ => rfl) hc.2
  exact (hleft.text " == " 0 0 (by decide)).str hright

theorem writes_compared (operation) (hl : IsName left) (hr : IsName right)
    (ho : Writes operation.toList operation.toList 1 0 Commas.cleared)
    (h : ∀ c ∈ pairs, IsBare c.left ∧ IsBare c.right)
    (hls : comparisonLines (left ++ ", " ++ right ++ operation) (equation left right) pairs = ls) :
    Writes (written ls) (written ls) 1 0 fun s => ⟨!pairs.isEmpty, s.dangling⟩ := by
  have hopening := ((hl.writes.text ", " 0 0 (by decide)).str hr.writes).str ho
  rw [← hls, comparisonLines_eq]
  refine writes_openedLines hopening fun c hc => ?_
  have hc := writes_equation hl hr (h c hc)
  exact ⟨hopening.str hc, (Writes.literal "     " 0 0 (by decide)).str hc⟩

/-! ### Branches -/

theorem branchLines_eq (input branches) :
    branchLines input branches = openedLines (input ++ " split(") (·.condition) branches := by cases branches <;> rfl

theorem writes_branchLines (hinput : IsName input) (h : ∀ b ∈ branches, IsEven b.condition) :
    Writes (written (branchLines input branches)) (written (branchLines input (branches.map fun b => ⟨b.stream, "x"⟩))) 1 0
      fun s => ⟨!branches.isEmpty, s.dangling⟩ := by
  have hsplit := Writes.literal " split(" 1 0 (by decide)
  have hmasked : branchLines input (branches.map fun b => ⟨b.stream, "x"⟩) =
      openedLines (input ++ " split(") (fun _ => "x") branches := by
    cases branches with
    | nil => rfl
    | cons b bs => exact congrArg (cons _) map_map
  rw [branchLines_eq, hmasked]
  refine writes_openedLines (hinput.writes.str hsplit) fun b hb =>
    ⟨?_, (Writes.literal "     " 0 0 (by decide)).even (by decide) (by decide) (h b hb)⟩
  rw [String.append_assoc, String.append_assoc]
  exact hinput.writes.str (hsplit.even (by decide) (by decide) (h b hb))

theorem areNames_streamList (h : ∀ b ∈ branches, IsName b.stream) : AreNames (streamList branches) := by
  refine ⟨branches.map (·.stream) ++ ["default"], by simp, ?_, rfl⟩
  exact forall_mem_append.mpr ⟨forall_mem_map.mpr h, forall_mem_singleton.mpr (by decide)⟩

/-! ## Assigned columns -/

variable {columns : List Assignment}

theorem writes_assignment (h : IsName a.name ∧ IsEven a.expression) :
    Writes (assignment a).toList (assignment ⟨a.name, "x"⟩).toList 0 0 Commas.cleared := by
  rw [assignment, assignment, String.append_assoc, String.append_assoc]
  exact h.1.writes.str ((Writes.literal " = " 0 0 (by decide)).even (by decide) (by decide) h.2)

def aggregateOpening (input : String) : Option String → String
  | some columns => input ++ " aggregate(groupBy(" ++ columns ++ "),"
  | none => input ++ " aggregate("

theorem lines_aggregate (input groupBy columns name) :
    (aggregate input groupBy columns name).lines = aggregateOpening input groupBy :: aggregateLines name columns := by
  cases groupBy <;> rfl

theorem writes_aggregateOpening (hinput : IsName input) (hg : ∀ g ∈ groupBy, AreNames g) :
    Writes (aggregateOpening input groupBy).toList (aggregateOpening input groupBy).toList 1 0
      fun s => ⟨groupBy.isSome, s.dangling⟩ := by
  cases groupBy with
  | none => exact hinput.writes.text " aggregate(" 1 0 (by decide)
  | some g =>
    have hopening := hinput.writes.text " aggregate(groupBy(" 2 0 (by decide)
    exact (hopening.str (hg g rfl).writes).text ")," (-1) 0 (by decide)

theorem writes_aggregateLines (hname : IsName name) (hne : columns ≠ [])
    (h : ∀ a ∈ columns, IsName a.name ∧ IsEven a.expression) : Writes (written (aggregateLines name columns))
      (written (aggregateLines name (columns.map fun a => ⟨a.name, "x"⟩))) (-1) 1 Commas.cleared := by
  induction columns with
  | nil => exact absurd rfl hne
  | cons a columns ih =>
    obtain ⟨ha, hcolumns⟩ := forall_mem_cons.mp h
    have hline := (Writes.literal "     " 0 0 (by decide)).str (writes_assignment ha)
    cases columns with
    | nil => exact ((hline.text ") ~> " (-1) 1 (by decide)).str hname.writes).line
    | cons c columns => exact hline.comma.lines (ih (cons_ne_nil c columns) hcolumns)

/-! ## Sorted columns -/

variable {sorted : List (Option SortColumn)} {k : SortColumn}

theorem writes_sortLine (h : IsBare k.direction ∧ IsName k.name) :
    Writes (sortLine k).toList (sortLine k).toList 0 0 Commas.cleared := by
  have hopening := ((Writes.literal "\t" 0 0 (by decide)).str h.1.writes).text "(" 1 0 (by decide)
  exact (hopening.str h.2.writes).text ", true)" (-1) 0 (by decide)

/-- A comma is open after the lines exactly if the last position is left out and a line, or a
    comma, came before it. -/
theorem writes_sortLines (h : ∀ k, some k ∈ sorted → IsBare k.direction ∧ IsName k.name) :
    Writes (written (sortLines sorted)) (written (sortLines sorted)) 0 0
      fun s => ⟨(sorted.getLastD none).isNone && (s.pending || sorted.any (·.isSome)), s.dangling⟩ := by
  induction sorted using sortLines.induct with
  | case1 => exact writes_none.of_eq fun s => by simp
  | case2 k =>
    cases k with
    | none => exact writes_none.of_eq fun s => by simp
    | some k => exact (writes_sortLine (h k mem_cons_self)).line
  | case3 k m rest ih =>
    have hrest := ih fun k' hk' => h k' (.tail _ hk')
    cases k with
    | none => exact hrest.of_eq fun s => by simp
    | some k =>
      exact ((writes_sortLine (h k mem_cons_self)).comma.lines hrest).of_eq fun s => by simp

/-! ## Whole blocks -/

/-- Names where a block has names, and expressions that are even. -/
def Parts : Block → Prop
  | derive input columns name => IsName input ∧ (∀ a ∈ columns, IsName a.name ∧ IsEven a.expression) ∧ IsName name
  | filter input condition name => IsName input ∧ IsEven condition ∧ IsName name
  | aggregate input groupBy columns name =>
    IsName input ∧ (∀ g ∈ groupBy, AreNames g) ∧ (∀ a ∈ columns, IsName a.name ∧ IsEven a.expression) ∧ IsName name
  | join left right conditions kind name =>
    IsName left ∧ IsName right ∧ (∀ c ∈ conditions, IsBare c.left ∧ IsBare c.right) ∧ IsBare kind ∧ IsName name
  | sort input columns name =>
    IsName input ∧ (∀ k, some k ∈ columns → IsBare k.direction ∧ IsName k.name) ∧ IsName name
  | split input branches name => IsName input ∧ (∀ b ∈ branches, IsName b.stream ∧ IsEven b.condition) ∧ IsName name
  | lookup main table conditions name =>
    IsName main ∧ IsName table ∧ (∀ c ∈ conditions, IsBare c.left ∧ IsBare c.right) ∧ IsName name
  | select input columns name => IsName input ∧ (∀ c ∈ columns, IsName c) ∧ IsName name
  | source _ _ | sink _ _ | pass _ _ => False

/-- The same block with a word for each expression. -/
def masked : Block → Block
  | derive input columns name => derive input (columns.map fun a => ⟨a.name, "x"⟩) name
  | filter input _ name => filter input "x" name
  | aggregate input groupBy columns name => aggregate input groupBy (columns.map fun a => ⟨a.name, "x"⟩) name
  | split input branches name => split input (branches.map fun b => ⟨b.stream, "x"⟩) name
  | b => b

/-- One arrow, which closes the block and introduces `name`; as many parentheses opened as
    closed; no comma behind the last member of a list. -/
structure WellFormed (block : Block) (name : String) : Prop where
  arrow : arrows (written block.lines) = 1
  last : Closes block.lines name
  even : (written block.lines).count '(' = (written block.lines).count ')'
  tidy : dangles (written block.masked.lines) = false

/-- An aggregate has a column to close it, and a sort that keeps any column keeps the last. -/
def IsComplete : Block → Prop
  | aggregate _ _ columns _ => columns ≠ []
  | sort _ columns _ => columns.getLastD none ≠ none ∨ ∀ c ∈ columns, c = none
  | _ => True

/-- The one way to leave a comma in front of the closing parenthesis. -/
def leavesComma : Block → Bool
  | sort _ columns _ => (columns.getLastD none).isNone && columns.any (·.isSome)
  | _ => false

variable {block : Block}

theorem writes_lines (h : block.Parts) (hn : block.introduces = some name) :
    Writes (written block.lines) (written block.masked.lines) 0 1 fun s => ⟨false, block.leavesComma || s.dangling⟩ := by
  have hclose := Writes.literal ") ~> " (-1) 1 (by decide)
  cases block with
  | derive input columns n =>
    have hcolumns := writes_tabbed fun a ha => writes_assignment (h.2.1 a ha)
    have hlast := (Writes.literal "\t) ~> " (-1) 1 (by decide)).str h.2.2.writes
    rw [masked, lines, lines, map_map]
    exact ((h.1.writes.text " derive(" 1 0 (by decide)).line.append_lines hcolumns).append_lines hlast.line
  | filter input condition n =>
    have hcondition := (Writes.literal "\t" 0 0 (by decide)).even (by decide) (by decide) h.2.1
    exact (h.1.writes.text " filter(" 1 0 (by decide)).lines (hcondition.lines (hclose.str h.2.2.writes).line)
  | aggregate input groupBy columns n =>
    have hne : columns ≠ [] := by
      rintro rfl
      rw [introduces_aggregate] at hn
      cases hn
    rw [masked, lines_aggregate, lines_aggregate]
    exact (writes_aggregateOpening h.1 h.2.1).lines (writes_aggregateLines h.2.2.2 hne h.2.2.1)
  | join left right conditions kind n =>
    obtain ⟨hl, hr, hconditions, hkind, hn'⟩ := h
    have hlines := writes_compared " join(" hl hr ⟨by decide, fun _ => rfl⟩ hconditions rfl
    have hkindLine := ((Writes.literal "     joinType:'" 0 0 (by decide)).bare (fun _ => rfl) hkind).text "'," 0 0 (by decide)
    have hlast := (Writes.literal "     broadcast: 'auto')~> " (-1) 1 (by decide)).str hn'.writes
    exact hlines.append_lines (hkindLine.lines hlast.line)
  | sort input columns n =>
    have hopening := h.1.writes.text " sort(" 1 0 (by decide)
    exact (hopening.line.append_lines (writes_sortLines h.2.1)).append_lines (hclose.str h.2.2.writes).line
  | split input branches n =>
    have hlines := writes_branchLines h.1 fun b hb => (h.2.1 b hb).2
    have hstreams := (areNames_streamList fun b hb => (h.2.1 b hb).1).writes
    have hname := (Writes.literal "     disjoint: false) ~> " (-1) 1 (by decide)).str h.2.2.writes
    have hlast := ((hname.text "@(" 1 0 (by decide)).str hstreams).text ")" (-1) 0 (by decide)
    have hmasked : streamList (branches.map fun b => ⟨b.stream, "x"⟩) = streamList branches := by
      simp [streamList, Function.comp_def]
    rw [masked, lines, lines, hmasked]
    exact hlines.append_lines hlast.line
  | lookup main table conditions n =>
    obtain ⟨hm, ht, hconditions, hn'⟩ := h
    have hlines := writes_compared " lookup(" hm ht ⟨by decide, fun _ => rfl⟩ hconditions rfl
    have hlast := (Writes.literal "     pickup: 'any')~> " (-1) 1 (by decide)).str hn'.writes
    exact hlines.append_lines ((Writes.literal "     multiple: false," 0 0 (by decide)).lines hlast.line)
  | select input columns n =>
    have hfront := (h.1.writes.text " select(" 1 0 (by decide)).lines (Writes.literal "\tmapColumn(" 1 0 (by decide)).line
    have hcolumns := writes_tabbed fun c hc => (h.2.1 c hc).writes
    have hoptions : Writes (written ["\t),", "\tskipDuplicateMapInputs: true,", "\tskipDuplicateMapOutputs: true"])
        (written ["\t),", "\tskipDuplicateMapInputs: true,", "\tskipDuplicateMapOutputs: true"]) (-1) 0
        fun s => ⟨false, s.pending || s.dangling⟩ := ⟨by decide, fun _ => rfl⟩
    exact (hfront.append_lines hcolumns).append_lines (hoptions.append_lines (hclose.str h.2.2.writes).line)
  | source | sink | pass => exact h.elim

theorem leavesComma_iff {columns : List (Option SortColumn)} :
    (sort input columns n).leavesComma = false ↔ (sort input columns n).IsComplete := by
  rw [leavesComma, IsComplete, Bool.and_eq_false_iff, any_eq_false]
  simp only [Option.isNone_eq_false_iff, Option.isSome_iff_ne_none, Decidable.not_not]

theorem dangles_masked (h : block.Parts) (hn : block.introduces = some name) :
    dangles (written block.masked.lines) = block.leavesComma := by
  rw [dangles_eq, (writes_lines h hn).reads]
  exact Bool.or_false _

/-- A block of names and even expressions is well formed exactly if it is complete. -/
theorem wellFormed_iff (h : block.Parts) : block.WellFormed block.output ↔ block.IsComplete := by
  constructor
  · intro hw
    cases block with
    | aggregate input groupBy columns n =>
      rintro rfl
      have harrow := hw.arrow
      rw [lines_aggregate, aggregateLines, (writes_aggregateOpening h.1 h.2.1).line.adds.2.1] at harrow
      cases harrow
    | sort input columns n => exact leavesComma_iff.mp ((dangles_masked h rfl).symm.trans hw.tidy)
    | _ => trivial
  · intro hc
    have hintroduces : block.introduces = some block.output := by
      cases block with
      | aggregate input groupBy columns n =>
        rw [introduces_aggregate, isEmpty_eq_false_iff.mpr hc]
        rfl
      | _ => rfl
    obtain ⟨heven, harrow, -⟩ := (writes_lines h hintroduces).adds
    have hcomma : block.leavesComma = false := by
      cases block with
      | sort input columns n => exact leavesComma_iff.mpr hc
      | _ => rfl
    exact ⟨harrow, lines_last hintroduces, by omega, (dangles_masked h hintroduces).trans hcomma⟩

end MappingFlow.Dataflow.Block
