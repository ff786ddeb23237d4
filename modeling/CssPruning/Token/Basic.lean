/-!
# Tokens of CSS text

A token is what the grammar of style sheets is written over.  A lexeme is a
token together with the text it was read from and the place where that text
starts, counted in characters from the start of the whole text.  The texts of
the lexemes of a text, put together, are the text.
-/

set_option autoImplicit false

namespace CssPruning

/-- The three pairs of brackets. -/
inductive Bracket where
  | round
  | square
  | curly
  deriving DecidableEq, Repr, Inhabited

/-- A token.  Escapes are resolved in the names and texts it carries. -/
inductive Token where
  | blank
  | comment (text : String)
  | ident (name : String)
  /-- a name followed by an opening parenthesis, which belongs to the token -/
  | function (name : String)
  | atKeyword (name : String)
  | hash (name : String)
  | string (text : String)
  /-- a string cut off by the end of its line -/
  | badString
  /-- an address written without quotes, its parentheses included -/
  | url (address : String)
  | badUrl
  | number
  | percentage
  | dimension (unit : String)
  | colon
  | semicolon
  | comma
  /-- the comparison of an attribute selector, such as `~=` -/
  | comparison
  /-- the two marks that once hid a sheet from old browsers -/
  | hidingMark
  | opening (bracket : Bracket)
  | closing (bracket : Bracket)
  | delim (c : Char)
  deriving DecidableEq, Repr, Inhabited

/-- The bracket that a token opens. -/
def Token.opens : Token → Option Bracket
  | .function _ => some .round
  | .opening b => some b
  | _ => none

/-- A token, the text it was read from and where that text starts. -/
structure Lexeme where
  token : Token
  source : List Char
  start : Nat
  deriving DecidableEq, Repr, Inhabited

namespace Lexeme

/-- A comment that ends before the text does.  Shorter than four characters,
its two marks would share a star. -/
def commentCloses (l : Lexeme) : Bool :=
  4 ≤ l.source.length && ['/', '*'].isPrefixOf l.source.reverse

/-- A string whose source ends with the quote it starts with. -/
def stringCloses (l : Lexeme) : Bool :=
  2 ≤ l.source.length && l.source.head? == l.source.getLast?

end Lexeme

end CssPruning
