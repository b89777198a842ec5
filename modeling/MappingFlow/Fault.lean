/-
  MappingFlow.Fault — why an operation failed.

  A structure that is handed to a generator may have any shape, so the first group of
  causes says how a value was used in a way its kind does not allow. The others are
  causes of the domain. `Fault.message` is the wording of each.
-/

import MappingFlow.Document.Display
import MappingFlow.Expression.Basic

namespace MappingFlow

inductive Fault where
  /-- An object does not have the key. -/
  | missingKey (key : String)
  /-- A list is shorter than the position asked for. -/
  | outOfRange
  /-- Values of this kind do not have the operation. -/
  | noOperation (kind : Value.Kind) (operation : String)
  | notIterable (kind : Value.Kind)
  | notIndexable (kind : Value.Kind)
  | textIndexed (key : Value.Kind)
  | listIndexed (key : Value.Kind)
  | noLength (kind : Value.Kind)
  | notSearchable (kind : Value.Kind)
  | textSearched (item : Value.Kind)
  | notHashable (kind : Value.Kind)
  | notJoinable
  | joinedItem (position : Nat) (kind : Value.Kind)
  | notMatchable (kind : Value.Kind)
  | notComparable (left right : Value.Kind)
  /-- Only a number can be written with a fixed number of places. -/
  | notNumber (kind : Value.Kind)
  | notBytes (kind : Value.Kind)
  | badReplacement (kind : Value.Kind)
  /-- An object has no number among its keys. -/
  | missingNumber (n : Nat)
  | badPair (position : Nat)
  | pairLength (position length : Nat)
  | tooLargeQuotient
  | notInList (item : Value)
  | noMapping
  | duplicateSource (name : Value)
  | joinWithoutInputs (name : Value)
  | nothingToSink
  /-- A step could not be built, for the reason given. -/
  | brokenStep (name : Value) (reason : String)
  | missingMember (part key : String)
  | wrongDataflowType (found : Value)
  | wrongPropertiesType (found : Value)
  | noDependencies (step : Value)
  | danglingDependency (step activity : Value)
  | sinkNoDependencies (sink : Value)
  | sinkDanglingDependency (sink activity : Value)
  | noSuchFile (path : String)
  | isFolder (path : String)
  | notFolder (path : String)
  | fileExists (path : String)
  | longName (path : String)
  | nullInPath
  | notPath (kind : Value.Kind)
  | undecodable
  /-- The file to convert is not there. -/
  | missingInput (path : String)
  | inputNotFile (path : String)
  | wrongEnding (expected found : String)
  /-- A mapping was to be read from a file that is not there. -/
  | unreadableMapping (path : String)
  | malformedMarkup
  | badInteger (text : String) (cause : Text.IntegerError)
  | residue (r : Expression.Residue)
  | template (e : TemplateError)
  deriving Inhabited

namespace Fault

def noted (w : String) (k : Value.Kind) : String := "'" ++ k.word ++ "' " ++ w

/-- A text that does not read as a whole number is shown up to 200 characters. -/
def integerMessage (text : String) : Text.IntegerError → String
  | .malformed =>
    "invalid literal for int() with base 10: "
      ++ String.ofList ((Text.quoted text.toList).take 200)
  | .tooLong digits =>
    "Exceeds the limit (4300 digits) for integer string conversion: value has " ++ toString digits
      ++ " digits; use sys.set_int_max_str_digits() to increase the limit"

def message : Fault → String
  | missingKey key => Value.quote key
  | outOfRange => "list index out of range"
  | noOperation k op => noted ("object has no attribute '" ++ op ++ "'") k
  | notIterable k => noted "object is not iterable" k
  | notIndexable k => noted "object is not subscriptable" k
  | textIndexed k => "string indices must be integers, not '" ++ k.word ++ "'"
  | listIndexed k => "list indices must be integers or slices, not " ++ k.word
  | noLength k => "object of type '" ++ k.word ++ "' has no len()"
  | notSearchable k => "argument of type '" ++ k.word ++ "' is not iterable"
  | textSearched k => "'in <string>' requires string as left operand, not " ++ k.word
  | notHashable k => "unhashable type: '" ++ k.word ++ "'"
  | notJoinable => "can only join an iterable"
  | joinedItem i k => "sequence item " ++ toString i ++ ": expected str instance, " ++ k.word ++ " found"
  | notMatchable k => "expected string or bytes-like object, got '" ++ k.word ++ "'"
  | notComparable a b =>
    "'<' not supported between instances of '" ++ a.word ++ "' and '" ++ b.word ++ "'"
  | notNumber .text => "Unknown format code 'f' for object of type 'str'"
  | notNumber k => "unsupported format string passed to " ++ k.word ++ ".__format__"
  | notBytes k => "memoryview: a bytes-like object is required, not '" ++ k.word ++ "'"
  | badReplacement k => "decoding to str: need a bytes-like object, " ++ k.word ++ " found"
  | missingNumber n => toString n
  | badPair i => "cannot convert dictionary update sequence element #" ++ toString i ++ " to a sequence"
  | pairLength i n =>
    "dictionary update sequence element #" ++ toString i ++ " has length " ++ toString n ++ "; 2 is required"
  | tooLargeQuotient => "integer division result too large for a float"
  | notInList item => item.inner ++ " is not in list"
  | noMapping => "no mapping has been converted"
  | duplicateSource name => "Source duplicado detectado: '" ++ name.display ++ "'"
  | joinWithoutInputs name => "Join '" ++ name.display ++ "' requiere al menos 2 inputs previos"
  | nothingToSink => "No hay sources ni transformations para conectar al sink"
  | brokenStep name reason => "Error construyendo transformación '" ++ name.display ++ "': " ++ reason
  | missingMember part key => "Falta campo requerido en " ++ part ++ ": " ++ key
  | wrongDataflowType v =>
    "Tipo de dataflow incorrecto: " ++ v.display ++ ". Debe ser 'Microsoft.DataFactory/factories/dataflows'"
  | wrongPropertiesType v => "Tipo en properties incorrecto: " ++ v.display ++ ". Debe ser 'MappingDataFlow'"
  | noDependencies v => "Transformación '" ++ v.display ++ "' no tiene dependsOn"
  | danglingDependency v a =>
    "Dependencia inválida en '" ++ v.display ++ "': '" ++ a.display ++ "' no existe"
  | sinkNoDependencies v => "Sink '" ++ v.display ++ "' no tiene dependsOn"
  | sinkDanglingDependency v a =>
    "Dependencia inválida en sink '" ++ v.display ++ "': '" ++ a.display ++ "' no existe"
  | noSuchFile path => "[Errno 2] No such file or directory: " ++ Value.quote path
  | fileExists path => "[Errno 17] File exists: " ++ Value.quote path
  | notFolder path => "[Errno 20] Not a directory: " ++ Value.quote path
  | isFolder path => "[Errno 21] Is a directory: " ++ Value.quote path
  | longName path => "[Errno 36] File name too long: " ++ Value.quote path
  | nullInPath => "embedded null byte"
  | notPath k => "expected str, bytes or os.PathLike object, not " ++ k.word
  | undecodable => "invalid start byte"
  | missingInput path => "El archivo no existe: " ++ path
  | inputNotFile path => "La ruta no es un archivo: " ++ path
  | wrongEnding expected found => "Extensión incorrecta. Esperado " ++ expected ++ ", obtenido " ++ found
  | unreadableMapping path =>
    "Error reading file '" ++ path ++ "': failed to load external entity \"" ++ path ++ "\""
  | malformedMarkup => "Error de sintaxis XML:"
  | badInteger text cause => integerMessage text cause
  | residue r => r.message
  | template e => e.message

end Fault

end MappingFlow
