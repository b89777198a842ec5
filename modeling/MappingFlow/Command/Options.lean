/-
  MappingFlow.Command.Options — reading the words of a command line.

  A long option may be shortened as long as one option only begins that way. Flags of one
  letter may share a word, and a value may be attached to its option. After a divider
  every word is taken as it is. All words are recognised before the first one takes
  effect; a word that is not understood is refused at the end only, so that asking for
  help or for the version before it still answers.
-/

import MappingFlow.Text.Digit
import MappingFlow.Text.Search

namespace MappingFlow.Command

inductive Setting where
  | help | output | verbose | validateOnly | logFile | version | skipValidation
  deriving DecidableEq

namespace Setting

def takesValue : Setting → Bool
  | output => true
  | logFile => true
  | _ => false

def named : List (String × Setting) :=
  [("-h", help), ("--help", help), ("-o", output), ("--output", output), ("-v", verbose),
   ("--verbose", verbose), ("--validate-only", validateOnly), ("--log-file", logFile),
   ("--version", version), ("--skip-validation", skipValidation)]

def named? (name : List Char) : Option Setting := named.lookup (String.ofList name)

/-- The options whose name begins that way. -/
def beginning (start : List Char) : List Setting :=
  (named.filter fun n => start.isPrefixOf n.1.toList).map (·.2)

end Setting

/-! ## Words -/

inductive Word where
  | plain (text : String)
  | divider
  /-- Flags that share a word, and the option that ends it with the value attached to it. -/
  | option (flags : List Setting) (last : Setting) (value : Option String)
  | unknown
  /-- A value is attached to a flag. -/
  | broken

namespace Word

/-- What follows a one-letter option within its word. -/
def cluster (flags : List Setting) (s : Setting) : List Char → Word
  | [] => .option flags s none
  | c :: rest =>
    if s.takesValue then .option flags s (some (String.ofList (c :: rest)))
    else
      match Setting.named? ['-', c] with
      | some t => cluster (flags ++ [s]) t rest
      | none => .broken

/-- An option with a value after an equals sign. -/
def withValue (isLong : Bool) (s : Setting) (value : List Char) : Word :=
  if s.takesValue then .option [] s (some (String.ofList value))
  else if isLong || value.isEmpty then .broken
  else cluster [] s value

def isNegativeNumber : List Char → Bool
  | '-' :: rest =>
    match Text.splitFirst? ['.'] rest with
    | none => !rest.isEmpty && rest.all Text.isDigit
    | some (whole, places) => whole.all Text.isDigit && !places.isEmpty && places.all Text.isDigit
  | _ => false

/-- A word that is no option as it stands. -/
def other (w : List Char) : Word :=
  if isNegativeNumber w || w.contains ' ' then .plain (String.ofList w) else .unknown

/-- A word that begins like an option but is not the whole name of one. Nothing if more
than one option is meant. -/
def shortened (w : List Char) : Option Word :=
  if ['-', '-'].isPrefixOf w then
    let (start, value) := match Text.splitFirst? ['='] w with
      | some (start, value) => (start, some value)
      | none => (w, none)
    match Setting.beginning start with
    | [] => some (other w)
    | [s] => match value with
      | some v => some (withValue true s v)
      | none => some (.option [] s none)
    | _ => none
  else
    match Setting.named? (w.take 2) with
    | some s => some (cluster [] s (w.drop 2))
    | none => some (other w)

def recognise (w : List Char) : Option Word :=
  if w.head? != some '-' || w.length = 1 then some (.plain (String.ofList w))
  else
    match Setting.named? w with
    | some s => some (.option [] s none)
    | none =>
      match Text.splitFirst? ['='] w with
      | some (name, value) =>
        match Setting.named? name with
        | some s => some (withValue (['-', '-'].isPrefixOf w) s value)
        | none => shortened w
      | none => shortened w

/-- Nothing if some word means more than one option. -/
def recogniseAll : List String → Option (List Word)
  | [] => some []
  | w :: rest =>
    if w = "--" then some (.divider :: rest.map .plain)
    else do
      let first ← recognise w.toList
      let others ← recogniseAll rest
      return first :: others

end Word

/-! ## Options -/

structure Options where
  input : String
  output : String
  verbose : Bool
  validateOnly : Bool
  skipValidation : Bool
  logFile : Option String
  deriving DecidableEq

/-- The options while the words are read. -/
structure Partial where
  input : Option String
  options : Options
  /-- The last word was the input. -/
  justNamed : Bool
  /-- Some word is left over. -/
  hasRest : Bool

/-- What a command line asks for. -/
inductive Asked where
  | help
  | version
  | refused
  | options (o : Options)
  deriving DecidableEq

namespace Options

def standard : Options := ⟨"", "./output", false, false, false, none⟩

/-- The options with one more setting; a setting may also end the reading. -/
def apply (o : Options) (value : String) : Setting → Except Asked Options
  | .help => .error .help
  | .version => .error .version
  | .output => .ok { o with output := value }
  | .verbose => .ok { o with verbose := true }
  | .validateOnly => .ok { o with validateOnly := true }
  | .logFile => .ok { o with logFile := some value }
  | .skipValidation => .ok { o with skipValidation := true }

def applyAll (o : Options) (flags : List Setting) (last : Setting) (value : String) : Except Asked Options := do
  let o ← flags.foldlM (fun o s => o.apply "" s) o
  o.apply value last

def finish (p : Partial) : Asked :=
  match p.input with
  | some input => if p.hasRest then .refused else .options { p.options with input := input }
  | none => .refused

def readWords (p : Partial) : List Word → Asked
  | [] => finish p
  | .plain text :: rest =>
    if p.input.isNone then readWords { p with input := some text, justNamed := true } rest
    else readWords { p with justNamed := false, hasRest := true } rest
  | .divider :: rest =>
    readWords { p with justNamed := false, hasRest := p.hasRest || (p.input.isSome && !p.justNamed) } rest
  | .unknown :: rest => readWords { p with justNamed := false, hasRest := true } rest
  | .broken :: _ => .refused
  | .option flags last (some value) :: rest =>
    match p.options.applyAll flags last value with
    | .error a => a
    | .ok o => readWords { p with options := o, justNamed := false } rest
  | .option flags last none :: rest =>
    if last.takesValue then
      match rest with
      | .plain value :: others =>
        match p.options.applyAll flags last value with
        | .error a => a
        | .ok o => readWords { p with options := o, justNamed := false } others
      | _ => .refused
    else
      match p.options.applyAll flags last "" with
      | .error a => a
      | .ok o => readWords { p with options := o, justNamed := false } rest

def read (words : List String) : Asked :=
  match Word.recogniseAll words with
  | none => .refused
  | some ws => readWords ⟨none, .standard, false, false⟩ ws

end Options

end MappingFlow.Command
