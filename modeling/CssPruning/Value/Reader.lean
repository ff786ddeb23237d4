import CssPruning.Error
import CssPruning.Token.Tree
import CssPruning.Value.Basic

/-!
# Reading values

A value is read from the token trees of its text.  Comments are dropped, a
function or a parenthesis is read inside, and a block in square or curly
brackets is kept as it stands, closed or not.  A value that ends inside of a
comment, a string, a function or a parenthesis is refused, and so are a string
that its line cuts off and a malformed address.

Faults are met in the order of the text, those inside a block before the lack
of its closing bracket.
-/

set_option autoImplicit false

namespace CssPruning

namespace Component

/-- The component of a function: `url` around a single string is an address. -/
def call (name : String) (arguments : Value) : Component :=
  match arguments with
  | [.string address] =>
    if Text.sameAscii name "url" then url address else function name arguments
  | _ => function name arguments

/-- A delimiter that stands between the parts of a value. -/
def isSign (c : Char) : Bool :=
  c == '/' || c == '*' || c == '+' || c == '-' || c == '=' || c == '>' || c == '<'

/-- A number's text without the unit behind it.  A unit written with an escape
is not found there. -/
def digitsBefore (unit : String) (source : List Char) : String :=
  if unit.toList.reverse.isPrefixOf source.reverse then
    String.ofList (source.take (source.length - unit.length))
  else String.ofList source

/-- The component of a lexeme that opens nothing; `none` for a comment. -/
def ofLexeme (l : Lexeme) : Except Fault (Option Component) :=
  match l.token with
  | .blank => .ok (some blank)
  | .comment _ =>
    if l.commentCloses then .ok none else .error ⟨.unclosedCommentInValue, l.start⟩
  | .ident name => .ok (some (ident name))
  | .string text =>
    if l.stringCloses then .ok (some (string text))
    else .error ⟨.unclosedStringInValue, l.start⟩
  | .badString => .error ⟨.unclosedStringInValue, l.start⟩
  | .number => .ok (some (number (String.ofList l.source)))
  | .percentage => .ok (some (percentage (String.ofList l.source.dropLast)))
  | .dimension unit => .ok (some (dimension (digitsBefore unit l.source) unit))
  | .hash name => .ok (some (hash name))
  | .url address => .ok (some (url address))
  | .badUrl => .error ⟨.malformedUrl, l.start⟩
  | .comma => .ok (some comma)
  | .colon => .ok (some (operator ":"))
  | .delim c =>
    .ok (some (if isSign c then operator (String.ofList [c]) else raw (String.ofList l.source)))
  | _ => .ok (some (raw (String.ofList l.source)))

mutual

/-- The component of a tree; `none` for a comment. -/
def ofTree : TokenTree → Except Fault (Option Component)
  | .leaf l => ofLexeme l
  | .block opener contents closer =>
    match opener.token with
    | .function name => do
      let arguments ← ofForest contents
      if closer.isNone then throw ⟨.unclosedParenthesisInValue, opener.start⟩
      return some (call name arguments.trim)
    | .opening .round => do
      let inner ← ofForest contents
      if closer.isNone then throw ⟨.unclosedParenthesisInValue, opener.start⟩
      return some (parentheses inner.trim)
    | _ => .ok (some (raw (String.ofList (TokenTree.block opener contents closer).source)))
termination_by structural t => t

/-- The components of a forest, blanks at its ends included. -/
def ofForest : List TokenTree → Except Fault Value
  | [] => .ok []
  | t :: ts => do
    let c ← ofTree t
    let cs ← ofForest ts
    return c.toList ++ cs
termination_by structural ts => ts

end

end Component

namespace Value

/-- The value that a text spells, or the first fault of the text. -/
def read (cs : List Char) : Except Fault Value :=
  Value.trim <$> Component.ofForest (TokenTree.forest cs)

/-- The value that a text spells. -/
def parse (s : String) : Except Error Value :=
  (read s.toList).mapError (Error.ofFault s.toList)

end Value

end CssPruning
