import CssPruning.Decimal.Layout
import CssPruning.Text.Quoted

/-!
# JSON values

A probe replies with a JSON value, and a configuration can be one.  Objects keep
their entries in the order of the text.  Numbers without a fraction or an
exponent that fit in 64 bits stay integers.
-/

set_option autoImplicit false

namespace CssPruning

/-- A JSON value. -/
inductive Json where
  | null
  | bool (b : Bool)
  | integer (n : Int)
  | float (x : Float)
  | string (s : String)
  | array (items : List Json)
  | object (entries : List (String × Json))
  deriving Inhabited

namespace Json

/-! ## Writing -/

/-- The four hexadecimal digits of a code. -/
def fourDigits (n : Nat) : List Char :=
  let ds := Nat.toDigits 16 n
  List.replicate (4 - ds.length) '0' ++ ds

/-- A character inside a JSON string. -/
def stringChar (c : Char) : List Char :=
  if c == '"' then ['\\', '"']
  else if c == '\\' then ['\\', '\\']
  else if c == '\x08' then ['\\', 'b']
  else if c == '\x0c' then ['\\', 'f']
  else if c == '\n' then ['\\', 'n']
  else if c == '\r' then ['\\', 'r']
  else if c == '\t' then ['\\', 't']
  else if c.toNat < 0x20 then '\\' :: 'u' :: fourDigits c.toNat
  else [c]

/-- A JSON string. -/
def stringText (s : String) : List Char := '"' :: s.toList.flatMap stringChar ++ ['"']

/-- A JSON number; what is no finite number is null. -/
def floatText (x : Float) : List Char :=
  if x.isFinite then (Decimal.write .compact x).toList else "null".toList

mutual

/-- The text of a value, without blanks. -/
def text : Json → List Char
  | null => "null".toList
  | bool b => (if b then "true" else "false").toList
  | integer n => (toString n).toList
  | float x => floatText x
  | string s => stringText s
  | array items => '[' :: itemsText items ++ [']']
  | object entries => '\x7b' :: entriesText entries ++ ['\x7d']
termination_by structural j => j

/-- The texts of items, commas between them. -/
def itemsText : List Json → List Char
  | [] => []
  | j :: js => text j ++ (if js.isEmpty then [] else ',' :: itemsText js)
termination_by structural js => js

/-- The texts of entries, commas between them. -/
def entriesText : List (String × Json) → List Char
  | [] => []
  | e :: es => entryText e ++ (if es.isEmpty then [] else ',' :: entriesText es)
termination_by structural es => es

/-- The text of an entry. -/
def entryText : String × Json → List Char
  | (k, j) => stringText k ++ ':' :: text j
termination_by structural e => e

end

/-- The text of a value, without blanks. -/
def compact (j : Json) : String := String.ofList (text j)

/-! ## Description -/

/-- What a message calls a value that it did not expect. -/
def kind : Json → String
  | null => "null"
  | bool b => "boolean `" ++ (if b then "true" else "false") ++ "`"
  | integer n => "integer `" ++ toString n ++ "`"
  | float x => "floating point `" ++ Decimal.write .compact x ++ "`"
  | string s => "string " ++ Text.quoted s
  | array _ => "sequence"
  | object _ => "map"

end Json

end CssPruning
