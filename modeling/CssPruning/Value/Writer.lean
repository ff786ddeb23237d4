import CssPruning.Text.Blank
import CssPruning.Value.Basic

/-!
# Writing values

A value is written component by component.  A blank is one space, and none
where the text so far ends in a space already.  The arguments of a function and
the contents of a parenthesis are written on their own and trimmed.
-/

set_option autoImplicit false

namespace CssPruning

namespace Component

/-- A character of a string, with a backslash before a quote or a backslash. -/
def escaped (c : Char) : List Char := if c == '"' || c == '\\' then ['\\', c] else [c]

/-- The text so far ends in a space, after some more text. -/
def endsInSpace (spaced : Bool) (more : List Char) : Bool :=
  match more.getLast? with
  | some c => c == ' '
  | none => spaced

mutual

/-- The text of a component, where `spaced` says that the text before it ends in
a space. -/
def text (spaced : Bool) : Component → List Char
  | ident name => name.toList
  | string s => '"' :: s.toList.flatMap escaped ++ ['"']
  | number digits => digits.toList
  | dimension digits unit => digits.toList ++ unit.toList
  | percentage digits => digits.toList ++ ['%']
  | hash name => '#' :: name.toList
  | url address => "url(".toList ++ address.toList ++ [')']
  | function name arguments =>
    name.toList ++ '(' :: Text.trim (texts false arguments) ++ [')']
  | parentheses contents => '(' :: Text.trim (texts false contents) ++ [')']
  | operator sign => sign.toList
  | blank => if spaced then [] else [' ']
  | raw s => s.toList
termination_by structural c => c

/-- The text of some components in a row. -/
def texts (spaced : Bool) : List Component → List Char
  | [] => []
  | c :: cs =>
    let t := text spaced c
    t ++ texts (endsInSpace spaced t) cs
termination_by structural cs => cs

end

/-- The text of a component on its own. -/
def write (c : Component) : String := String.ofList (text false c)

end Component

namespace Value

/-- The text of a value, trimmed. -/
def chars (v : Value) : List Char := Text.trim (Component.texts false v)

/-- The text of a value. -/
def write (v : Value) : String := String.ofList (chars v)

end Value

end CssPruning
