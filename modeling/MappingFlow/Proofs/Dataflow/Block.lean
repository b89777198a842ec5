/-
  MappingFlow.Proofs.Dataflow.Block — what the lines of a block say of its streams.

  A block opens with the streams it reads (`Reads`) and closes with `~>` and the stream
  it introduces (`Introduces`). There is one exception: an aggregate without columns is
  never closed, so it introduces nothing.
-/

import MappingFlow.Dataflow.Block

namespace MappingFlow.Dataflow.Block

variable {b : Block} {n : String}

/-- The stream that can be read after a block, if there is one. -/
def introduces : Block → Option String
  | aggregate _ _ [] _ => none
  | b => some b.output

theorem introduces_aggregate (input groupBy columns name) :
    (aggregate input groupBy columns name).introduces = if columns.isEmpty then none else some name := by
  cases columns <;> rfl

/-- The operations that read one stream and work on its rows. -/
def takesOne : Block → Bool
  | derive _ _ _ | filter _ _ _ | aggregate _ _ _ _ | sort _ _ _ | split _ _ _ => true
  | _ => false

/-- The word between the streams that a block reads and what it does with them. -/
def operation : Block → String
  | source _ _ => "source("
  | derive _ _ _ => "derive("
  | filter _ _ _ => "filter("
  | aggregate _ _ _ _ => "aggregate("
  | join _ _ _ _ _ => "join("
  | sort _ _ _ => "sort("
  | split _ _ _ => "split("
  | lookup _ _ _ _ => "lookup("
  | select _ _ _ => "select("
  | sink _ _ => "sink("
  | pass _ _ => "~> "

theorem comparisonLines_first (opening write cs) :
    ∃ rest, (comparisonLines opening write cs).head? = some (opening ++ rest) := by
  cases cs with
  | nil => exact ⟨"", by simp [comparisonLines]⟩
  | cons c cs => exact ⟨write c ++ ",", by simp [comparisonLines, String.append_assoc]⟩

theorem head?_append_of_some {xs ys : List String} (h : xs.head? = some x) :
    (xs ++ ys).head? = some x := by rw [List.head?_append, h, Option.some_or]

/-- The block reads these streams, and its first line opens with them. -/
def Reads (b : Block) (streams : List String) : Prop :=
  b.inputs = streams ∧ ∃ rest, b.lines.head? = some (", ".intercalate streams ++ " " ++ b.operation ++ rest)

theorem lines_first (h : b.inputs ≠ []) :
    ∃ rest, b.lines.head? = some (", ".intercalate b.inputs ++ " " ++ b.operation ++ rest) := by
  have spaced : ∀ (streams operation word rest : String), word = " " ++ operation →
      streams ++ word ++ rest = streams ++ " " ++ operation ++ rest := by
    intro streams operation word rest hword
    rw [hword, ← String.append_assoc]
  cases b with
  | source columns name => exact absurd rfl h
  | derive | filter | sort | select | sink => exact ⟨"", by simp [lines, inputs, operation, String.append_assoc]⟩
  | aggregate input groupBy columns name =>
    cases groupBy with
    | none => exact ⟨"", by simp [lines, inputs, operation, String.append_assoc]⟩
    | some gs =>
      refine ⟨"groupBy(" ++ gs ++ "),", congrArg some ?_⟩
      refine Eq.trans ?_ (spaced input "aggregate(" " aggregate(" _ rfl)
      rw [show " aggregate(groupBy(" = " aggregate(" ++ "groupBy(" from rfl]
      simp only [String.append_assoc, -String.reduceAppend]
  | join left right conditions kind name =>
    obtain ⟨rest, hrest⟩ := comparisonLines_first (left ++ ", " ++ right ++ " join(") (equation left right) conditions
    exact ⟨rest, (head?_append_of_some hrest).trans (congrArg some (spaced _ "join(" _ rest rfl))⟩
  | split input branches name =>
    cases branches with
    | nil => exact ⟨"", by simp [lines, branchLines, inputs, operation, String.append_assoc]⟩
    | cons b bs =>
      refine ⟨b.condition ++ ",", congrArg some ?_⟩
      refine Eq.trans ?_ (spaced input "split(" " split(" _ rfl)
      exact String.append_assoc
  | lookup main table conditions name =>
    obtain ⟨rest, hrest⟩ := comparisonLines_first (main ++ ", " ++ table ++ " lookup(") (equation main table) conditions
    exact ⟨rest, (head?_append_of_some hrest).trans (congrArg some (spaced _ "lookup(" _ rest rfl))⟩
  | pass input name => exact ⟨name, congrArg some (spaced input "~> " " ~> " name rfl)⟩

theorem reads_iff (h : streams ≠ []) : b.Reads streams ↔ b.inputs = streams := by
  refine ⟨And.left, fun heq => ⟨heq, ?_⟩⟩
  subst heq
  exact lines_first h

theorem aggregateLines_last (name) (h : cs ≠ []) :
    ∃ head, (aggregateLines name cs).getLast? = some (head ++ "~> " ++ name) := by
  induction cs with
  | nil => exact absurd rfl h
  | cons a cs ih =>
    cases cs with
    | nil =>
      refine ⟨"     " ++ assignment a ++ ") ", congrArg some ?_⟩
      rw [show ") ~> " = ") " ++ "~> " from rfl, List.getLast_singleton]
      simp only [String.append_assoc, -String.reduceAppend]
    | cons b cs =>
      obtain ⟨head, hlast⟩ := ih (by simp)
      refine ⟨head, ?_⟩
      simp only [aggregateLines, List.getLast?_cons, hlast, Option.getD_some]

/-- The last line of a block: the new stream, and for a split its branches. -/
def Closes (ls : List String) (n : String) : Prop :=
  ∃ head tail, ls.getLast? = some (head ++ "~> " ++ n ++ tail) ∧
    (tail = "" ∨ ∃ branches, tail = "@(" ++ streamList branches ++ ")")

/-- The block introduces this stream, and its last line closes with it. -/
def Introduces (b : Block) (n : String) : Prop := b.introduces = some n ∧ Closes b.lines n

theorem closes_of_last {line : String} (head : String) (h : ls.getLast? = some (line ++ n))
    (hline : line = head ++ "~> ") : Closes ls n :=
  ⟨head, "", by rw [h, hline, String.append_empty], .inl rfl⟩

theorem Closes.append (h : Closes ls n) (init) : Closes (init ++ ls) n := by
  obtain ⟨head, tail, hlast, htail⟩ := h
  exact ⟨head, tail, by rw [List.getLast?_append, hlast, Option.some_or], htail⟩

theorem lines_last (h : b.introduces = some n) : Closes b.lines n := by
  cases b with
  | source columns name => cases h; exact (closes_of_last "\tignoreNoFilesFound: false) " rfl rfl).append _
  | derive input columns name => cases h; exact (closes_of_last "\t) " rfl rfl).append _
  | filter input condition name => cases h; exact closes_of_last ") " rfl rfl
  | aggregate input groupBy columns name =>
    rw [introduces_aggregate] at h
    cases columns with
    | nil => cases h
    | cons a columns =>
      obtain rfl : name = n := Option.some.inj h
      obtain ⟨head, hlast⟩ := aggregateLines_last name (List.cons_ne_nil a columns)
      have closed : Closes (aggregateLines name (a :: columns)) name :=
        ⟨head, "", by rw [hlast, String.append_empty], .inl rfl⟩
      exact closed.append [_]
  | join left right conditions kind name => cases h; exact (closes_of_last "     broadcast: 'auto')" rfl rfl).append _
  | sort | select => cases h; exact (closes_of_last ") " rfl rfl).append _
  | split input branches name =>
    cases h
    refine Closes.append ⟨"     disjoint: false) ", "@(" ++ streamList branches ++ ")", ?_, .inr ⟨branches, rfl⟩⟩ _
    rw [List.getLast?_singleton, show "     disjoint: false) ~> " = "     disjoint: false) " ++ "~> " from rfl]
    simp only [output, String.append_assoc, -String.reduceAppend]
  | lookup main table conditions name => cases h; exact (closes_of_last "     pickup: 'any')" rfl rfl).append _
  | sink input name => cases h; exact closes_of_last "\tskipDuplicateMapOutputs: true) " rfl rfl
  | pass input name =>
    cases h
    exact closes_of_last (input ++ " ") rfl (by rw [String.append_assoc, show " " ++ "~> " = " ~> " from rfl])

theorem introduces_iff : b.Introduces n ↔ b.introduces = some n :=
  ⟨And.left, fun h => ⟨h, lines_last h⟩⟩

end MappingFlow.Dataflow.Block
