import CssPruning.Json.Basic

/-!
# TOML documents

A document is a tree of tables.  How a table came about decides what may be
added to it later: a header or a pair of braces defines a table once and for all,
while a table that is only named on the way to another one may still be defined,
and one made by a dotted key may only be added to by dotted keys.

Adding a key can fail; that is the only error here, and a document with such a
fault is no document.
-/

set_option autoImplicit false

namespace CssPruning.Toml

/-- How a table came about. -/
inductive Origin where
  /-- by a header of its own, or in braces -/
  | defined
  /-- on the way to a table with a header -/
  | implied
  /-- by a dotted key -/
  | dotted
  deriving DecidableEq, Repr, Inhabited

/-- A value or a table. -/
inductive Item where
  | string (s : String)
  | integer (n : Int)
  | float (x : Float)
  | boolean (b : Bool)
  | datetime
  | array (items : List Item)
  /-- a table in braces -/
  | inlineTable (origin : Origin) (entries : List (String × Item))
  | table (origin : Origin) (entries : List (String × Item))
  /-- an array of tables made by headers, last table first -/
  | tables (items : List (List (String × Item)))
  deriving Inhabited

namespace Item

/-- What a message calls an item. -/
def typeName : Item → String
  | string _ => "string"
  | integer _ => "integer"
  | float _ => "float"
  | boolean _ => "boolean"
  | datetime => "datetime"
  | array _ => "array"
  | inlineTable .. => "inline table"
  | table .. => "table"
  | tables _ => "array of tables"

end Item

/-- The entries of a table in the order in which they were added. -/
abbrev Entries := List (String × Item)

namespace Entries

/-- The entries with one replaced, or added at the end. -/
def put (key : String) (item : Item) : Entries → Entries
  | [] => [(key, item)]
  | (k, i) :: es => if k = key then (k, item) :: es else (k, i) :: put key item es

/-- The entries without one. -/
def remove (key : String) (es : Entries) : Entries := es.filter (·.1 != key)

/-- A change to a table, which may be refused; it may also answer something. -/
abbrev Change (α : Type) := Origin → Entries → Option (α × Entries)

/-- The change that only puts an item into a table. -/
def putting (key : String) (item : Item) (es : Entries) : Option (Unit × Entries) :=
  some ((), put key item es)

/-! ## Tables with headers -/

/-- A change to the table at the end of a path, where tables on the way are made
as they are needed.  Of an array of tables the last one is meant.  A dotted path
may not lead into a table that has been defined. -/
def changeAt {α : Type} (dotted : Bool) (change : Change α) : List String → Change α
  | [], origin, es => change origin es
  | key :: path, _, es =>
    match es.lookup key with
    | none =>
      let origin := if dotted then Origin.dotted else .implied
      (changeAt dotted change path origin []).map fun (a, inner) =>
        (a, put key (.table origin inner) es)
    | some (.table origin inner) =>
      if dotted && origin == .defined then none
      else (changeAt dotted change path origin inner).map fun (a, inner) =>
        (a, put key (.table origin inner) es)
    | some (.tables (last :: before)) =>
      (changeAt dotted change path .defined last).map fun (a, last) =>
        (a, put key (.tables (last :: before)) es)
    | some _ => none

/-- One more value in a table, under a key that is new there.  `viaDots` says that
a dotted key led to the table; then it must have been made so, and else not. -/
def addValue (viaDots : Bool) (key : String) (item : Item) : Change Unit := fun origin es =>
  if (origin == .dotted) != viaDots then none
  else if (es.lookup key).isSome then none
  else putting key item es

/-- Takes a table out of its parent so that a header can define it, and answers
what it holds already. -/
def takeForHeader (key : String) : Change Entries := fun _ es =>
  match es.lookup key with
  | none => some ([], es)
  | some (.table .implied inner) => some (inner, remove key es)
  | some _ => none

/-- A defined table put into its parent. -/
def giveTable (key : String) (inner : Entries) : Change Unit := fun _ es =>
  match es.lookup key with
  | none | some (.table .implied _) | some (.table .dotted _) =>
    putting key (.table .defined inner) es
  | some _ => none

/-- One more table at the end of an array of tables, which is made if need be. -/
def giveElement (key : String) (inner : Entries) : Change Unit := fun _ es =>
  match es.lookup key with
  | none => putting key (.tables [inner]) es
  | some (.tables items) => putting key (.tables (inner :: items)) es
  | some _ => none

/-- Room for an array of tables. -/
def makeTables (key : String) : Change Entries := fun _ es =>
  match es.lookup key with
  | none => some ([], put key (.tables []) es)
  | some (.tables _) => some ([], es)
  | some _ => none

/-! ## Tables in braces -/

/-- One more value in a table in braces, under a path of keys. -/
def addInline (item : Item) (viaDots : Bool) : List String → Origin → Entries → Option Entries
  | [], _, _ => none
  | [key], origin, es => (addValue viaDots key item origin es).map Prod.snd
  | key :: path, _, es =>
    match es.lookup key with
    | none =>
      (addInline item true path .dotted []).map fun inner =>
        put key (.inlineTable .dotted inner) es
    | some (.inlineTable origin inner) =>
      if origin == .defined then none
      else (addInline item true path origin inner).map fun inner =>
        put key (.inlineTable origin inner) es
    | some _ => none

end Entries

end CssPruning.Toml
