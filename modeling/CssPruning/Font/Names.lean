import CssPruning.Event
import CssPruning.Font.Variables
import CssPruning.Sheet.Basic
import CssPruning.Value.Writer

/-!
# Family names in values

A value names font families: a string names one, words with nothing but blanks
between them name one together, a reference to a variable names what the variable
stands for at that point, and a function or a parenthesis names what is inside.
Everything else parts words and names nothing.
-/

set_option autoImplicit false

namespace CssPruning.Font

/-- The text without a pair of equal quotes around it. -/
def stripQuotes (s : String) : String :=
  match s.toList with
  | c :: rest =>
    if (c == '"' || c == '\'') && rest.getLast? == some c then String.ofList rest.dropLast else s
  | [] => s

/-- The word refers to a variable. -/
def isReference (word : String) : Bool := ['-', '-'].isPrefixOf word.toList

/-- The one name that some words make, given last word first. -/
def joinWords (words : List String) : List String :=
  if words.isEmpty then [] else [" ".intercalate words.reverse]

mutual

/-- The names that a component names on its own. -/
def componentNames (vs : Variables) : Component → List String
  | .string text => [text]
  | .ident word => if isReference word then (vs.get word).getD [] else [stripQuotes word]
  | .function _ arguments => namesFrom vs [] arguments
  | .parentheses contents => namesFrom vs [] contents
  | _ => []
termination_by structural c => c

/-- The names of a value after some words of a name, given last word first. -/
def namesFrom (vs : Variables) (words : List String) : List Component → List String
  | [] => joinWords words
  | c :: cs =>
    match c with
    | .blank => namesFrom vs words cs
    | .ident word =>
      if isReference word then
        joinWords words ++ componentNames vs c ++ namesFrom vs [] cs
      else namesFrom vs (stripQuotes word :: words) cs
    | _ => joinWords words ++ componentNames vs c ++ namesFrom vs [] cs
termination_by structural cs => cs

end

/-- The names that a value names. -/
def names (vs : Variables) (v : Value) : List String := namesFrom vs [] v

/-- The variables after a declaration of one. -/
def record (vs : Variables) (d : Declaration) : Variables :=
  vs.record d.property (names vs d.value)

/-! ## Components that cannot name a family -/

mutual

/-- The parts of a component, in order, that are neither names nor signs. -/
def nameless : Component → List Component
  | .function _ arguments => allNameless arguments
  | .parentheses contents => allNameless contents
  | .string _ | .ident _ | .operator _ | .blank => []
  | c => [c]
termination_by structural c => c

/-- The parts of a value, in order, that are neither names nor signs. -/
def allNameless : List Component → List Component
  | [] => []
  | c :: cs => nameless c ++ allNameless cs
termination_by structural cs => cs

end

/-- The event for a part that names nothing. -/
def namelessEvent (c : Component) : Event :=
  ⟨.trace, .fontFaceCleanup,
    [("node", .text c.write), ("message", .text "no font name in value node")]⟩

/-- What looking for names in a value reports. -/
def nameEvents (v : Value) : List Event := (allNameless v).map namelessEvent

end CssPruning.Font
