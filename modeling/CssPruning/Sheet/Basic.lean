import CssPruning.Text.Blank
import CssPruning.Value.Basic

/-!
# Style sheets

The tree of a sheet is shallow on purpose: selectors and the preludes of
at-rules stay text, and only the values of declarations are taken apart, for the
pruning passes look at nothing else.
-/

set_option autoImplicit false

namespace CssPruning

/-- A property and its value. -/
structure Declaration where
  property : String
  value : Value
  important : Bool
  deriving Repr, Inhabited, BEq

/-- A node of a sheet or of a block. -/
inductive Node where
  /-- a selector and the block behind it -/
  | rule (selector : String) (children : List Node)
  /-- a name, what stands between it and the block, and the block, if any -/
  | atRule (name : String) (prelude : Option String) (block : Option (List Node))
  | declaration (d : Declaration)
  | comment (text : String)
  /-- text that is none of these, kept as it stands -/
  | raw (text : String)
  deriving Repr, Inhabited, BEq

/-- A style sheet. -/
abbrev Sheet := List Node

/-- An at-rule on its own. -/
structure AtRule where
  name : String
  prelude : Option String
  block : Option (List Node)
  deriving Repr, Inhabited, BEq

namespace Node

/-- The node is a declaration. -/
def isDeclaration : Node → Bool
  | declaration _ => true
  | _ => false

/-- The node is a comment. -/
def isComment : Node → Bool
  | comment _ => true
  | _ => false

/-- The declaration that the node is. -/
def declaration? : Node → Option Declaration
  | declaration d => some d
  | _ => none

end Node

namespace AtRule

/-- The at-rule as a node. -/
def toNode (r : AtRule) : Node := .atRule r.name r.prelude r.block

/-- The name in small letters, without a vendor's mark: a hyphen, the vendor and
another hyphen. -/
def basename (r : AtRule) : String :=
  let name := Text.lowerAscii r.name
  match name.toList with
  | '-' :: rest =>
    match rest.dropWhile (· != '-') with
    | _ :: base => String.ofList base
    | [] => name
  | _ => name

/-- The at-rule is for certain media only. -/
def isMedia (r : AtRule) : Bool := r.basename == "media"

/-- The at-rule describes a font. -/
def isFontFace (r : AtRule) : Bool := r.basename == "font-face"

/-- The trimmed prelude, unless nothing is left of it. -/
def preludeText (r : AtRule) : Option String :=
  (r.prelude.map Text.trimmed).filter (· != "")

/-- The declarations directly inside the block. -/
def declarations (r : AtRule) : List Declaration :=
  (r.block.getD []).filterMap Node.declaration?

end AtRule

namespace Declaration

/-- The property is a variable of the author's. -/
def isCustom (d : Declaration) : Bool := ['-', '-'].isPrefixOf d.property.toList

/-- The property's name in small letters; that of a variable as it stands. -/
def propertyName (d : Declaration) : String :=
  if d.isCustom then d.property else Text.lowerAscii d.property

end Declaration

end CssPruning
