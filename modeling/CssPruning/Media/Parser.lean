import CssPruning.Media.Query
import CssPruning.Text.Ascii
import CssPruning.Text.Blank

/-!
# Reading media queries

A list of queries is cut at its commas, and every part has to be a query:

    [only | not] <type> [and <conditions>]
    (<condition>) [and <conditions>]

The type is the longest name that leaves the end of the text, or `and`, behind
it; so the type may run into its keyword or into the `and`.  The conditions are
the parentheses of what follows, each up to its first closing parenthesis; what
stands between them is not looked at.
-/

set_option autoImplicit false

namespace CssPruning.Media

/-! ## Names and keywords -/

/-- A character that a name starts with: a letter or an underscore.  Two letters
beyond ASCII have a partner among the ASCII letters when case is disregarded. -/
def isWordStart (c : Char) : Bool :=
  c.isAlpha || c == '_' || c == '\u017F' || c == '\u212A'

/-- A character that a name goes on with. -/
def isWordChar (c : Char) : Bool := isWordStart c || c.isDigit || c == '-'

/-- The text behind a keyword, whose small letters are given. -/
def afterKeyword : List Char → List Char → Option (List Char)
  | [], cs => some cs
  | _ :: _, [] => none
  | k :: ks, c :: cs => if c.toLower == k then afterKeyword ks cs else none

/-! ## Parts of a query -/

/-- A query before its conditions are looked at: the first condition if it has no
type, and the text behind `and`. -/
structure Outline where
  negated : Bool
  mediaType : String
  first : List Char
  more : Option (List Char)
  deriving DecidableEq, Repr

/-- What may stand behind a type or a first condition: nothing, or `and` with the
text behind it, which has no line feed after its blanks. -/
def tail (cs : List Char) : Option (Option (List Char)) :=
  if cs.isEmpty then some none
  else
    match afterKeyword ['a', 'n', 'd'] (Text.trimStart cs) with
    | some rest =>
      let rest := Text.trimStart rest
      if rest.contains '\n' then none else some (some rest)
    | none => none

/-- The longest name, not empty, with a proper tail.  The name is given last
character first, with what follows it. -/
def shorten : List Char → List Char → Option (List Char × Option (List Char))
  | [], _ => none
  | c :: name, rest =>
    match tail rest with
    | some more => some ((c :: name).reverse, more)
    | none => shorten name (c :: rest)

/-- A type with its tail. -/
def typed (negated : Bool) (cs : List Char) : Option Outline :=
  let cs := Text.trimStart cs
  if cs.head?.any isWordStart then
    (shorten (cs.takeWhile isWordChar).reverse (cs.dropWhile isWordChar)).map
      fun (name, more) => ⟨negated, Text.lowerAscii (String.ofList name), [], more⟩
  else none

/-- A keyword, a type and its tail. -/
def withKeyword (cs : List Char) : Option Outline :=
  match afterKeyword ['o', 'n', 'l', 'y'] cs with
  | some rest => typed false rest
  | none => (afterKeyword ['n', 'o', 't'] cs).bind (typed true)

/-- A parenthesis that is not empty, and its tail. -/
def untyped (cs : List Char) : Option Outline :=
  match cs with
  | '(' :: cs =>
    let inner := cs.takeWhile (· != ')')
    match inner, cs.dropWhile (· != ')') with
    | _ :: _, ')' :: rest => (tail rest).map fun more => ⟨false, "all", '(' :: inner ++ [')'], more⟩
    | _, _ => none
  | _ => none

/-- The outline of a query: with a keyword if that can be, else with a type, else
without either. -/
def outline (cs : List Char) : Option Outline :=
  (withKeyword cs).or ((typed false cs).or (untyped cs))

/-- The insides of the parentheses of a text, each up to the first closing
parenthesis; empty ones do not count.  `opened` is what stands so far in the one
that is open, last character first. -/
def parentheses (opened : Option (List Char)) : List Char → List (List Char)
  | [] => []
  | c :: cs =>
    match opened with
    | none => parentheses (if c == '(' then some [] else none) cs
    | some inner =>
      if c == ')' then
        if inner.isEmpty then parentheses none cs
        else inner.reverse :: parentheses none cs
      else parentheses (some (c :: inner)) cs

/-! ## Conditions -/

/-- A feature's name without its bound. -/
def splitBound (name : List Char) : Option Bound × List Char :=
  match name with
  | 'm' :: 'i' :: 'n' :: '-' :: rest => (some .min, rest)
  | 'm' :: 'a' :: 'x' :: '-' :: rest => (some .max, rest)
  | _ => (none, name)

/-- The value behind a name: nothing at all, or a colon and a text that is not
empty; a blank text is no value. -/
def conditionValue (cs : List Char) : Option (Option String) :=
  match cs with
  | [] => some none
  | [':'] => none
  | ':' :: text =>
    let value := Text.trim text
    some (if value.isEmpty then none else some (String.ofList value))
  | _ => none

/-- The condition inside of a parenthesis. -/
def condition? (inner : List Char) : Option Condition :=
  let cs := Text.trimStart inner
  if cs.head?.any fun c => isWordStart c || c == '-' then
    let name := (cs.takeWhile isWordChar).map Char.toLower
    match conditionValue (Text.trimStart (cs.dropWhile isWordChar)), splitBound name with
    | some value, (bound, feature) =>
      if feature.isEmpty then none else some ⟨bound, String.ofList feature, value⟩
    | none, _ => none
  else none

/-- The condition inside of a parenthesis, or the parenthesis as an error. -/
def condition (inner : List Char) : Except QueryError Condition :=
  match condition? inner with
  | some c => .ok c
  | none => .error ⟨String.ofList ('(' :: inner ++ [')'])⟩

/-! ## Queries -/

/-- The conditions of a query without its outline; `none` where there ought to be
some. -/
def conditions (o : Outline) : Option (Except QueryError (List Condition)) :=
  if o.more.any fun more => (Text.trim more).isEmpty then none
  else
    let text := Text.trim (o.first ++ o.more.getD [])
    if text.isEmpty then some (.ok [])
    else
      match parentheses none text with
      | [] => none
      | inners => some (inners.mapM condition)

/-- The query that a trimmed text spells. -/
def query (cs : List Char) : Except QueryError Query :=
  let unreadable := .error ⟨String.ofList cs⟩
  match outline cs with
  | none => unreadable
  | some o =>
    match conditions o with
    | none => unreadable
    | some conditions => conditions.map fun conditions => ⟨o.negated, o.mediaType, conditions⟩

/-- The parts of a text between its commas. -/
def parts : List Char → List (List Char)
  | [] => [[]]
  | c :: cs =>
    if c == ',' then [] :: parts cs
    else
      match parts cs with
      | p :: ps => (c :: p) :: ps
      | [] => [[c]]

/-- The queries of a list, or the first part that is none. -/
def parseList (text : String) : Except QueryError (List Query) :=
  (parts text.toList).mapM fun part => query (Text.trim part)

end CssPruning.Media
