/-
  MappingFlow.Dataflow.Block — the script of a data flow, block by block.

  A block reads one or two streams and introduces one. `Block.lines` writes it: the
  streams it reads come first, then the operation with its arguments, and last `~>` with
  the name of the new stream.
-/

namespace MappingFlow.Dataflow

/-- `name = expression` in a derived column or an aggregate. -/
structure Assignment where
  name : String
  expression : String
  deriving DecidableEq

/-- A comparison of a column of one stream with a column of another. -/
structure ColumnPair where
  left : String
  right : String
  deriving DecidableEq

structure SortColumn where
  direction : String
  name : String
  deriving DecidableEq

/-- One way out of a split. -/
structure Branch where
  stream : String
  condition : String
  deriving DecidableEq

inductive Block where
  | source (columns : List (String × String)) (name : String)
  | derive (input : String) (columns : List Assignment) (name : String)
  | filter (input condition name : String)
  | aggregate (input : String) (groupBy : Option String) (columns : List Assignment) (name : String)
  | join (left right : String) (conditions : List ColumnPair) (kind name : String)
  /-- A column that is left out keeps its position. -/
  | sort (input : String) (columns : List (Option SortColumn)) (name : String)
  | split (input : String) (branches : List Branch) (name : String)
  | lookup (main table : String) (conditions : List ColumnPair) (name : String)
  | select (input : String) (columns : List String) (name : String)
  | sink (input name : String)
  | pass (input name : String)
  deriving DecidableEq

namespace Block

/-- A comma after each line but the last. -/
def listed : List String → List String
  | [] => []
  | [x] => [x]
  | x :: y :: rest => (x ++ ",") :: listed (y :: rest)

def assignment (a : Assignment) : String := a.name ++ " = " ++ a.expression

/-- The last line of an aggregate also closes it. -/
def aggregateLines (name : String) : List Assignment → List String
  | [] => []
  | [a] => ["     " ++ assignment a ++ ") ~> " ++ name]
  | a :: b :: rest => ("     " ++ assignment a ++ ",") :: aggregateLines name (b :: rest)

def qualify (stream column : String) : String := stream ++ "@" ++ column

def equation (left right : String) (c : ColumnPair) : String :=
  qualify left c.left ++ " == " ++ qualify right c.right

/-- The first comparison stands on the opening line. -/
def comparisonLines (opening : String) (write : ColumnPair → String) : List ColumnPair → List String
  | [] => [opening]
  | c :: rest => (opening ++ write c ++ ",") :: rest.map fun d => "     " ++ write d ++ ","

def sortLine (c : SortColumn) : String := "\t" ++ c.direction ++ "(" ++ c.name ++ ", true)"

/-- A comma after each line but that of the last position. -/
def sortLines : List (Option SortColumn) → List String
  | [] => []
  | [c] => (c.map sortLine).toList
  | c :: d :: rest => (c.map fun c => sortLine c ++ ",").toList ++ sortLines (d :: rest)

def branchLines (input : String) : List Branch → List String
  | [] => [input ++ " split("]
  | b :: rest => (input ++ " split(" ++ b.condition ++ ",") :: rest.map fun c => "     " ++ c.condition ++ ","

/-- The streams of a split; what no branch takes goes to the last. -/
def streamList (branches : List Branch) : String := ", ".intercalate (branches.map (·.stream) ++ ["default"])

def sourceTail (name : String) : List String :=
  ["\t),", "\tallowSchemaDrift: true,", "\tvalidateSchema: false,", "\tignoreNoFilesFound: false) ~> " ++ name]

def lines : Block → List String
  | source columns name =>
    ["source(output("] ++ listed (columns.map fun c => "\t\t" ++ c.1 ++ " as " ++ c.2) ++ sourceTail name
  | derive input columns name =>
    [input ++ " derive("] ++ listed (columns.map fun a => "\t\t" ++ assignment a) ++ ["\t) ~> " ++ name]
  | filter input condition name => [input ++ " filter(", "\t" ++ condition, ") ~> " ++ name]
  | aggregate input groupBy columns name =>
    (match groupBy with
      | some columns => input ++ " aggregate(groupBy(" ++ columns ++ "),"
      | none => input ++ " aggregate(") :: aggregateLines name columns
  | join left right conditions kind name =>
    comparisonLines (left ++ ", " ++ right ++ " join(") (equation left right) conditions
      ++ ["     joinType:'" ++ kind ++ "',", "     broadcast: 'auto')~> " ++ name]
  | sort input columns name => [input ++ " sort("] ++ sortLines columns ++ [") ~> " ++ name]
  | split input branches name =>
    branchLines input branches ++ ["     disjoint: false) ~> " ++ name ++ "@(" ++ streamList branches ++ ")"]
  | lookup main table conditions name =>
    comparisonLines (main ++ ", " ++ table ++ " lookup(") (equation main table) conditions
      ++ ["     multiple: false,", "     pickup: 'any')~> " ++ name]
  | select input columns name =>
    [input ++ " select(", "\tmapColumn("] ++ listed (columns.map ("\t\t" ++ ·))
      ++ ["\t),", "\tskipDuplicateMapInputs: true,", "\tskipDuplicateMapOutputs: true", ") ~> " ++ name]
  | sink input name =>
    [input ++ " sink(", "\tallowSchemaDrift: true,", "\tvalidateSchema: false,",
     "\tskipDuplicateMapInputs: true,", "\tskipDuplicateMapOutputs: true) ~> " ++ name]
  | pass input name => [input ++ " ~> " ++ name]

/-- The stream that a block introduces. -/
def output : Block → String
  | source _ name => name
  | derive _ _ name => name
  | filter _ _ name => name
  | aggregate _ _ _ name => name
  | join _ _ _ _ name => name
  | sort _ _ name => name
  | split _ _ name => name
  | lookup _ _ _ name => name
  | select _ _ name => name
  | sink _ name => name
  | pass _ name => name

/-- The streams that a block reads. -/
def inputs : Block → List String
  | source _ _ => []
  | derive input _ _ => [input]
  | filter input _ _ => [input]
  | aggregate input _ _ _ => [input]
  | join left right _ _ _ => [left, right]
  | sort input _ _ => [input]
  | split input _ _ => [input]
  | lookup main table _ _ => [main, table]
  | select input _ _ => [input]
  | sink input _ => [input]
  | pass input _ => [input]

end Block

end MappingFlow.Dataflow
