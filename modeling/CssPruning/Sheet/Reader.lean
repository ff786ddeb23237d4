import CssPruning.Sheet.Basic
import CssPruning.Value.Reader

/-!
# Reading style sheets

A sheet is read from the token trees of its text, statement by statement.  A
statement is an at-rule or anything else that is no comment; it runs to the next
semicolon or curly block of its own level, or to the end of the block it is in.
`Pending` is the statement that the reader is inside of.

The text of a statement leaves out comments and stray closing curly brackets,
and copies everything in round or square brackets whole, so that a semicolon
inside of them ends nothing.

Faults are met in the order of the text, those inside a block before the lack of
its closing bracket, and a fault of a declaration's value when the declaration
ends, at the place where the declaration starts.
-/

set_option autoImplicit false

namespace CssPruning

/-! ## Texts of statements -/

/-- The text of a statement, cut at its first colon outside of brackets. -/
structure Phrase where
  head : List Char
  tail : Option (List Char)
  deriving DecidableEq, Repr, Inhabited

namespace Phrase

/-- The whole text. -/
def text (p : Phrase) : List Char :=
  match p.tail with
  | some t => p.head ++ ':' :: t
  | none => p.head

/-- Some text without a colon of its own, and then a phrase. -/
def behind (cs : List Char) (p : Phrase) : Phrase := ⟨cs ++ p.head, p.tail⟩

/-- A colon, and then a phrase: all of it stands behind the cut. -/
def behindColon (p : Phrase) : Phrase := ⟨[], some p.text⟩

/-- The text of some trees in a row, or their first fault. -/
def ofTrees : List TokenTree → Except Fault Phrase
  | [] => .ok ⟨[], none⟩
  | .leaf l :: ts =>
    match l.token with
    | .closing .curly => ofTrees ts
    | .comment _ =>
      if l.commentCloses then ofTrees ts else .error ⟨.unclosedComment, l.start⟩
    | .badString => .error ⟨.unclosedString, l.start⟩
    | .string _ =>
      if l.stringCloses then behind l.source <$> ofTrees ts
      else .error ⟨.unclosedString, l.start⟩
    | .colon => behindColon <$> ofTrees ts
    | _ => behind l.source <$> ofTrees ts
  | .block opener contents closer :: ts =>
    if closer.isSome then
      behind (TokenTree.block opener contents closer).source <$> ofTrees ts
    else .error ⟨.unclosedParenthesis, opener.start⟩

end Phrase

/-! ## Statements -/

/-- What a statement has begun with. -/
inductive Opening where
  /-- the name of an at-rule, which is no part of its text -/
  | atRule (name : String)
  | plain (start : Nat)
  deriving Repr

/-- A statement that has begun: its opening, and the trees of its text so far,
last first. -/
structure Pending where
  opening : Opening
  trees : List TokenTree
  deriving Repr

namespace Declaration

/-- The declaration with a property and the text of a value; a fault of the value
moves to the declaration's start. -/
def read (property value : List Char) (start : Nat) : Except Fault Declaration :=
  match Value.read value with
  | .error f => .error ⟨f.flaw, start⟩
  | .ok v =>
    let property := String.ofList (Text.trim property)
    match v.beforeImportant with
    | some before => .ok ⟨property, before, true⟩
    | none => .ok ⟨property, v, false⟩

end Declaration

namespace Pending

/-- The prelude of an at-rule, unless it is blank. -/
def prelude (p : Phrase) : Option String :=
  let text := Text.trim p.text
  if text.isEmpty then none else some (String.ofList text)

/-- The node of a statement that ends without a block.  Without a text there is
none; with a property before a colon it is a declaration. -/
def close (p : Pending) : Except Fault (Option Node) := do
  let phrase ← Phrase.ofTrees p.trees.reverse
  match p.opening with
  | .atRule name => return some (.atRule name (prelude phrase) none)
  | .plain start =>
    let text := Text.trim phrase.text
    if text.isEmpty then return none
    match phrase.tail with
    | some value =>
      if (Text.trim phrase.head).isEmpty then return some (.raw (String.ofList text))
      return some (.declaration (← Declaration.read phrase.head value start))
    | none => return some (.raw (String.ofList text))

/-- The node of a statement that ends in a block, from the statement's text. -/
def withBlock (opening : Opening) (phrase : Phrase) (children : List Node) : Node :=
  match opening with
  | .atRule name => .atRule name (prelude phrase) (some children)
  | .plain _ => .rule (String.ofList (Text.trim phrase.text)) children

end Pending

/-! ## Blocks and sheets -/

namespace Sheet

/-- A tree that a statement cannot begin with: it is passed over. -/
def isGap : Token → Bool
  | .blank | .semicolon | .closing .curly => true
  | _ => false

mutual

/-- The nodes inside a block. -/
def readBlock : TokenTree → Except Fault (List Node)
  | .leaf _ => .ok []
  | .block _ contents _ => readTrees none contents
termination_by structural t => t

/-- The nodes of some trees in a row, after a statement that has begun. -/
def readTrees (pending : Option Pending) : List TokenTree → Except Fault (List Node)
  | [] =>
    match pending with
    | none => .ok []
    | some p => Option.toList <$> p.close
  | t :: ts =>
    match t, pending with
    | .leaf l, none =>
      if isGap l.token then readTrees none ts
      else
        match l.token with
        | .comment text =>
          if l.commentCloses then (.comment text :: ·) <$> readTrees none ts
          else .error ⟨.unclosedComment, l.start⟩
        | .atKeyword name => readTrees (some ⟨.atRule name, []⟩) ts
        | _ => readTrees (some ⟨.plain l.start, [t]⟩) ts
    | .leaf l, some p =>
      if l.token = .semicolon then do
        let node ← p.close
        let nodes ← readTrees none ts
        return node.toList ++ nodes
      else readTrees (some ⟨p.opening, t :: p.trees⟩) ts
    | .block opener _ closer, _ =>
      let p := pending.getD ⟨.plain opener.start, []⟩
      if opener.token = .opening .curly then do
        let phrase ← Phrase.ofTrees p.trees.reverse
        let children ← readBlock t
        if closer.isNone then throw ⟨.unclosedBlock, opener.start⟩
        let nodes ← readTrees none ts
        return Pending.withBlock p.opening phrase children :: nodes
      else readTrees (some ⟨p.opening, t :: p.trees⟩) ts
termination_by structural ts => ts

end

/-- The sheet that a text spells, or the first fault of the text. -/
def read (cs : List Char) : Except Fault Sheet := readTrees none (TokenTree.forest cs)

/-- The sheet that a text spells. -/
def parse (s : String) : Except Error Sheet :=
  (read s.toList).mapError (Error.ofFault s.toList)

end Sheet

end CssPruning
