/-
  MappingFlow.Conversion.Lookup — a lookup as a step of a data flow.

  When the lookup brings a column whose name is taken, the new column carries a number
  at its end. Such a column means the column of the lookup table without the number, and
  the plain name beside it means the column of the main stream (`qualifiedNames`).
-/

import MappingFlow.Conversion.Steps

namespace MappingFlow.Conversion

open Pattern

def numberedPattern : Pattern :=
  all [group 1 (shortest isInLine), group 2 (longest Text.isDigit), finish]

/-- The name without the number at its end, if it has one. -/
def numberedBase? (name : String) : Option String :=
  (numberedPattern.at? [] name.toList).map fun m => String.ofList (m.group 1)

/-- The names of the columns that the lookup returns. -/
def returnedName (v : Value) : Except Fault Value :=
  match v with
  | .object _ => v.field "name"
  | v => .ok v

/-- What a column of the lookup is called from then on, if it needs another name. -/
def qualifiedName? (table : Value) (main : Option String) (returned : List Value)
    (numbered : List String) (name : String) : Option String :=
  match numberedBase? name with
  | some base =>
    if table.isPresent && returned.any (·.isText base) then some (table.display ++ "@" ++ base) else none
  | none =>
    if numbered.contains name then
      match main with
      | some m => if m = "" then none else some (m ++ "@" ++ name)
      | none => none
    else none

def qualifiedNames (table : Value) (main : Option String) (returned : List Value)
    (names : List String) : Fields :=
  let numbered := names.filterMap numberedBase?
  names.foldl
    (fun fs name => match qualifiedName? table main returned numbered name with
      | some q => fs.insert name (.text q)
      | none => fs)
    []

/-- The stream that is looked up: the first instance that feeds the step. -/
def mainInput (name : String) : Converting (Option String) := do
  let s ← get
  match s.feedsInto name with
  | [] => return none
  | first :: _ => do
    let m ← resolveFeed first
    return some m

def overrideMembers (t : Transformation) : Converting Fields := do
  let v := property t "sql_override" .null
  if v.isPresent then
    warn ("Lookup '" ++ t.name ++ "' has SQL Override. Review for ADF compatibility.")
    return [("sqlOverride", v)]
  else return []

def fileMembers (t : Transformation) : Converting Fields :=
  if (property t "source_type" (.text "Database")).isText "Flat File" then do
    warn ("Lookup '" ++ t.name ++ "' uses Flat File. Ensure DelimitedText dataset is configured.")
    return [("sourceType", .text "DelimitedText"), ("flatFileConfig", property t "flat_file" (.object []))]
  else return []

def policyNote (t : Transformation) : Converting Unit :=
  let policy := property t "multiple_match_policy" (.text "Use Any Value")
  if policy.isText "Use Any Value" then return ()
  else warn ("Lookup '" ++ t.name ++ "' uses '" ++ policy.display ++ "'. ADF may behave differently.")

def lookupStep (t : Transformation) (type : Value) : Converting Value := do
  let table := property t "lookup_table" .null
  let comparisons ← conditions (property t "lookup_condition" (.text ""))
  let main ← mainInput t.name
  let returnFields := property t "return_fields" (.list [])
  let rows ← returnFields.items
  let returned ← (rows.mapM returnedName : Except Fault (List Value))
  let names := qualifiedNames table main returned (t.columns.map (·.name))
  let cached := (property t "cache_enabled" (.bool true)).isPresent
  let override ← overrideMembers t
  let file ← fileMembers t
  policyNote t
  return .object (stepHead t type ++
    [("lookupDataset", table), ("mainInput", .ofOption main), ("lookupConditions", comparisons),
     ("returnFields", returnFields), ("columnDisambiguation", .object names),
     ("cacheMode", .text (if cached then "static" else "none"))] ++ override ++ file)

end MappingFlow.Conversion
