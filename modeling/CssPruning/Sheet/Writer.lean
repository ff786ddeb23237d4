import CssPruning.Sheet.Basic
import CssPruning.Value.Writer

/-!
# Writing style sheets

A sheet is written without blanks that it can do without.  A semicolon stands
between a declaration and the node after it, and behind an at-rule that has no
block.
-/

set_option autoImplicit false

namespace CssPruning

namespace Declaration

/-- The text of a declaration. -/
def chars (d : Declaration) : List Char :=
  d.property.toList ++ ':' :: d.value.chars
    ++ if d.important then "!important".toList else []

end Declaration

namespace AtRule

/-- The text of an at-rule up to its block. -/
def headChars (r : AtRule) : List Char :=
  '@' :: r.name.toList ++
    match r.preludeText with
    | some prelude => ' ' :: Text.collapse prelude.toList
    | none => []

/-- The prelude as it is written, with its runs of blanks collapsed. -/
def canonicalPrelude (prelude : String) : String :=
  String.ofList (Text.collapse prelude.toList)

end AtRule

namespace Node

mutual

/-- The text of a node. -/
def chars : Node → List Char
  | rule selector children =>
    Text.trim selector.toList ++ '\x7b' :: allChars children ++ ['\x7d']
  | atRule name prelude none => (AtRule.mk name prelude none).headChars ++ [';']
  | atRule name prelude (some children) =>
    (AtRule.mk name prelude none).headChars ++ '\x7b' :: allChars children ++ ['\x7d']
  | declaration d => d.chars
  | comment text => "/*".toList ++ text.toList ++ "*/".toList
  | raw text => text.toList
termination_by structural n => n

/-- The text of some nodes in a row. -/
def allChars : List Node → List Char
  | [] => []
  | n :: ns =>
    chars n ++ (if n.isDeclaration && !ns.isEmpty then [';'] else []) ++ allChars ns
termination_by structural ns => ns

end

/-- The text of a node. -/
def write (n : Node) : String := String.ofList (chars n)

end Node

namespace Sheet

/-- The text of a sheet. -/
def write (s : Sheet) : String := String.ofList (Node.allChars s)

end Sheet

end CssPruning
