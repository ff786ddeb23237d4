import CssPruning.Text.Ascii

/-!
# Values of declarations

The value of a declaration is a list of components: words, strings, numbers,
functions with values of their own, and the blanks between them.
-/

set_option autoImplicit false

namespace CssPruning

/-- A component of a value. -/
inductive Component where
  | ident (name : String)
  /-- a string, its quotes and escapes taken away -/
  | string (text : String)
  | number (digits : String)
  | dimension (digits unit : String)
  | percentage (digits : String)
  | hash (name : String)
  /-- an address, with quotes or without -/
  | url (address : String)
  | function (name : String) (arguments : List Component)
  | parentheses (contents : List Component)
  | operator (sign : String)
  | blank
  /-- text that is none of these, kept as it stands -/
  | raw (text : String)
  deriving Repr, Inhabited, BEq

/-- A value. -/
abbrev Value := List Component

namespace Component

/-- The component is a blank. -/
def isBlank : Component → Bool
  | blank => true
  | _ => false

/-- The comma between the parts of a list. -/
def comma : Component := operator ","

end Component

namespace Value

/-- The last component that is not a blank. -/
def last (v : Value) : Option Component := v.reverse.find? fun c => !c.isBlank

/-- The value without the blanks it ends with. -/
def dropEndBlanks (v : Value) : Value := (v.reverse.dropWhile Component.isBlank).reverse

/-- The value without the blanks it ends with and without one that it starts
with. -/
def trim (v : Value) : Value :=
  match dropEndBlanks v with
  | .blank :: rest => rest
  | rest => rest

/-- What is left of a value that ends in `! important`, and `none` for any
other.  Blanks may stand before, between and after the two. -/
def beforeImportant (v : Value) : Option Value :=
  match v.reverse with
  | .ident name :: before =>
    if Text.sameAscii name "important" then
      match before.dropWhile Component.isBlank with
      | .raw "!" :: rest => some (dropEndBlanks rest.reverse)
      | _ => none
    else none
  | _ => none

end Value

end CssPruning
