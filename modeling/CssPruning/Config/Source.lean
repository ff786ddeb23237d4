import CssPruning.Config.Basic
import CssPruning.Json.Reading
import CssPruning.Toml.Basic

/-!
# Where configurations come from

Configurations come as JSON texts, as JSON values and as TOML documents.  What
their fields mean is the same everywhere; a `Source` is what differs: how a value
is taken apart, how the name of a medium is spelled, and what is wrong with
elements too many.

A JSON text is read and understood in one go.  What stands first in it is found
first, be it a flaw of the text or a value that does not fit.
-/

set_option autoImplicit false

namespace CssPruning.Config

/-! ## What can be wrong -/

/-- How a value can fail to fit. -/
inductive Mismatch where
  | unexpected (found expected : String)
  | unknownMedium (word : String)
  | missingField (name : String)
  | duplicateField (name : String)
  /-- an array that ends before a field without a default -/
  | tooFew (length : Nat)
  | tooMany (length : Nat)
  /-- a length that is neither a number nor a text -/
  | noLength
  /-- a number or a text that is no usable length -/
  | badLength (error : Error)
  /-- a medium as an object that has not just one entry -/
  | notOneEntry
  /-- a medium as an empty table -/
  | noEntry
  /-- a medium as a table with more than one entry -/
  | manyEntries
  /-- a medium as something that cannot hold a name -/
  | noMedium
  /-- a table or an array that holds something behind the name of a medium -/
  | tableNotEmpty
  /-- an array of tables behind the name of a medium -/
  | tablesNotEmpty
  /-- a value that is no table behind the name of a medium -/
  | noTable (found : String)
  deriving DecidableEq, Repr, Inhabited

/-- The wording of a mismatch. -/
def Mismatch.message : Mismatch → String
  | unexpected found expected => "invalid type: " ++ found ++ ", expected " ++ expected
  | unknownMedium word => "unknown variant `" ++ word ++ "`, expected `screen` or `print`"
  | missingField name => "missing field `" ++ name ++ "`"
  | duplicateField name => "duplicate field `" ++ name ++ "`"
  | tooFew length =>
    "invalid length " ++ toString length ++ ", expected struct MatchConfig with 3 elements"
  | tooMany length =>
    "invalid length " ++ toString length ++ ", expected fewer elements in array"
  | noLength => "data did not match any variant of untagged enum LengthRepr"
  | badLength error => error.text
  | notOneEntry => "invalid value: map, expected map with a single key"
  | noEntry => "wanted exactly 1 element, found 0 elements"
  | manyEntries => "wanted exactly 1 element, more than 1 element"
  | noMedium => "wanted string or table"
  | tableNotEmpty => "expected empty table"
  | tablesNotEmpty => "expected empty array"
  | noTable found => "expected table, found " ++ found

/-- Why a configuration cannot be read. -/
inductive Fault where
  /-- what was read is no text of its format -/
  | text (flaw : Json.Flaw)
  | mismatch (m : Mismatch)
  deriving DecidableEq, Repr, Inhabited

/-- The fault for a value of another type. -/
def Fault.unexpected {α : Type} (found expected : String) : Except Fault α :=
  .error (.mismatch (.unexpected found expected))

/-! ## Sources -/

/-- A value taken apart. -/
inductive View (α : Type) where
  /-- a word, a number or a text, and what a message calls it -/
  | scalar (value : Json) (kind : String)
  /-- an array as far as it goes -/
  | sequence (items : List α) (stop : Option Json.Flaw)
  /-- an object or a table as far as it goes; `none` for a key that cannot be read -/
  | fields (entries : List (Option String × α)) (stop : Option Json.Flaw)
  /-- no value -/
  | broken (flaw : Json.Flaw)

/-- A kind of values that a configuration can be given in. -/
structure Source (α : Type) where
  view : α → View α
  medium : α → Except Fault Medium
  /-- the first flaw of a value that is to be understood as a whole -/
  wantFlaw : α → Option Json.Flaw
  /-- the first flaw of a value that is skipped -/
  skipFlaw : α → Option Json.Flaw
  /-- what is wrong with an array of some length that has more elements than there
  are fields -/
  surplus : Nat → Option Fault

/-- The medium of a name. -/
def mediumOfWord (word : String) : Except Fault Medium :=
  if word = "screen" then .ok .screen
  else if word = "print" then .ok .print
  else .error (.mismatch (.unknownMedium word))

/-! ## JSON -/

/-- A reading taken apart. -/
def viewReading : Json.Reading → View Json.Reading
  | .scalar (some v) => .scalar v v.kind
  | .string (some s) => .scalar (.string s) (Json.string s).kind
  | .scalar none | .string none => .broken .malformed
  | .array items stop => .sequence items stop
  | .object entries stop => .fields entries (stop.map Json.ObjectStop.wanted)
  | .broken stop => .broken stop.wanted

/-- The refusal of a value, whatever it is, where something else is expected. -/
def refuse (expected : String) (r : Json.Reading) : Except Fault Medium :=
  match viewReading r with
  | .scalar _ kind => Fault.unexpected kind expected
  | .sequence .. => Fault.unexpected "sequence" expected
  | .fields .. => Fault.unexpected "map" expected
  | .broken flaw => .error (.text flaw)

/-- Nothing may stand behind the name of a medium but a null. -/
def expectNull (m : Medium) : Json.Reading → Except Fault Medium
  | .scalar (some .null) => .ok m
  | r => refuse "unit" r

/-- A medium in a JSON text: a name, or an object with a name and a null. -/
def mediumOfText (r : Json.Reading) : Except Fault Medium :=
  let malformed := .error (.text .malformed)
  match r with
  | .string (some word) => mediumOfWord word
  | .object ((some word, value) :: rest) stop => do
    let m ← mediumOfWord word
    let m ← expectNull m value
    match rest, stop with
    | [], none => .ok m
    | [], some (.entry flaw) => .error (.text flaw)
    | _, _ => malformed
  | .object [] (some stop) => .error (.text stop.wanted)
  | .broken stop => .error (.text stop.named)
  | _ => malformed

/-- A medium as a JSON value: a name, or an object with a name and a null. -/
def mediumOfValue (r : Json.Reading) : Except Fault Medium :=
  match r with
  | .string (some word) => mediumOfWord word
  | .object [(some word, value)] none => do expectNull (← mediumOfWord word) value
  | .object .. => .error (.mismatch .notOneEntry)
  | r => refuse "string or map" r

/-- How deep the lengths of a configuration stand in its text. -/
def lengthDepth : Nat := 3

/-- The text of a JSON value, which may stop early. -/
def jsonText : Source Json.Reading where
  view := viewReading
  medium := mediumOfText
  wantFlaw := Json.Reading.wantFlaw lengthDepth
  skipFlaw := Json.Reading.skipFlaw
  surplus := fun _ => some (.text .malformed)

/-- A JSON value. -/
def jsonValue : Source Json.Reading where
  view := viewReading
  medium := mediumOfValue
  wantFlaw := fun _ => none
  skipFlaw := fun _ => none
  surplus := fun length => some (.mismatch (.tooMany length))

/-! ## TOML -/

/-- Entries all of whose keys can be read. -/
def readable {α : Type} (entries : List (String × α)) : List (Option String × α) :=
  entries.map fun e => (some e.1, e.2)

/-- The notation of numbers in messages about TOML. -/
def tomlLayout : Decimal.Layout := ⟨none, true, true, false⟩

/-- An item taken apart.  A date has no field that anybody knows. -/
def viewItem : Toml.Item → View Toml.Item
  | .string s => .scalar (.string s) (Json.string s).kind
  | .integer n => .scalar (.integer n) (Json.integer n).kind
  | .float x => .scalar (.float x) ("floating point `" ++ Decimal.write tomlLayout x ++ "`")
  | .boolean b => .scalar (.bool b) (Json.bool b).kind
  | .datetime => .fields [] none
  | .array items => .sequence items none
  | .inlineTable _ entries | .table _ entries => .fields (readable entries) none
  | .tables items => .sequence (items.reverse.map (.table .defined)) none

/-- Nothing may stand behind the name of a medium but an empty table or an empty
array. -/
def expectEmpty (m : Medium) : Toml.Item → Except Fault Medium
  | .inlineTable _ [] | .table _ [] | .array [] | .tables [] => .ok m
  | .inlineTable .. | .table .. | .array _ => .error (.mismatch .tableNotEmpty)
  | .tables _ => .error (.mismatch .tablesNotEmpty)
  | i => .error (.mismatch (.noTable i.typeName))

/-- A medium in a TOML document: a name, or a table with a name and something
empty. -/
def mediumOfItem : Toml.Item → Except Fault Medium
  | .string word => mediumOfWord word
  | .inlineTable _ entries | .table _ entries =>
    match entries with
    | [] => .error (.mismatch .noEntry)
    | [(word, value)] => do expectEmpty (← mediumOfWord word) value
    | _ => .error (.mismatch .manyEntries)
  | _ => .error (.mismatch .noMedium)

/-- An item of a TOML document.  Elements too many are passed over. -/
def toml : Source Toml.Item where
  view := viewItem
  medium := mediumOfItem
  wantFlaw := fun _ => none
  skipFlaw := fun _ => none
  surplus := fun _ => none

end CssPruning.Config
