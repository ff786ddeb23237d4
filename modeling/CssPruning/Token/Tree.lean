import CssPruning.Token.Tokenize

/-!
# Lexemes grouped by their brackets

An opening bracket, or a function's name, starts a block that runs to the next
closing bracket of its kind at its own level, or to the end of the text.  A
closing bracket of another kind is a lexeme like any other.  So every text has
a forest of token trees, and a block without a closer is one that the text ends
inside of.

`group` keeps the blocks that are open, innermost first, and the trees of the
level it is at, last first.  Reading a forest back gives its lexemes
(`lexemes_forest`), hence its text (`source_forest`).
-/

set_option autoImplicit false

namespace CssPruning

/-- A lexeme that opens nothing, or a block. -/
inductive TokenTree where
  | leaf (lexeme : Lexeme)
  | block (opener : Lexeme) (contents : List TokenTree) (closer : Option Lexeme)
  deriving Repr, Inhabited

namespace TokenTree

/-! ## Reading back -/

mutual

/-- The lexemes of a tree, in order. -/
def lexemes : TokenTree → List Lexeme
  | leaf l => [l]
  | block opener contents closer => opener :: (allLexemes contents ++ closer.toList)
termination_by structural t => t

/-- The lexemes of a forest, in order. -/
def allLexemes : List TokenTree → List Lexeme
  | [] => []
  | t :: ts => t.lexemes ++ allLexemes ts
termination_by structural ts => ts

end

/-- The text that a tree was read from. -/
def source (t : TokenTree) : List Char := t.lexemes.flatMap Lexeme.source

/-- Where the tree starts. -/
def start : TokenTree → Nat
  | leaf l => l.start
  | block opener _ _ => opener.start

@[simp] theorem allLexemes_append (ts us : List TokenTree) :
    allLexemes (ts ++ us) = allLexemes ts ++ allLexemes us := by
  induction ts with
  | nil => simp [allLexemes]
  | cons t ts ih => simp [allLexemes, ih]

/-! ## Grouping -/

/-- A block that is open, and the trees of the level around it, last first. -/
structure Frame where
  opener : Lexeme
  bracket : Bracket
  before : List TokenTree

/-- The whole forest once the text has ended: every open block stays without a
closer. -/
def unwind : List Frame → List TokenTree → List TokenTree
  | [], done => done.reverse
  | f :: fs, done => unwind fs (block f.opener done.reverse none :: f.before)

/-- The forest of the lexemes still to come, inside the given open blocks and
after the given trees of the innermost level. -/
def group (frames : List Frame) (done : List TokenTree) : List Lexeme → List TokenTree
  | [] => unwind frames done
  | l :: ls =>
    match l.token.opens with
    | some bracket => group (⟨l, bracket, done⟩ :: frames) [] ls
    | none =>
      match frames with
      | f :: fs =>
        if l.token = .closing f.bracket then
          group fs (block f.opener done.reverse (some l) :: f.before) ls
        else group (f :: fs) (leaf l :: done) ls
      | [] => group [] (leaf l :: done) ls

/-- The forest of a text. -/
def forest (cs : List Char) : List TokenTree := group [] [] (tokenize cs)

/-- The lexemes that lead up to the innermost open block. -/
def lead : List Frame → List Lexeme
  | [] => []
  | f :: fs => lead fs ++ allLexemes f.before.reverse ++ [f.opener]

theorem allLexemes_unwind (frames : List Frame) (done : List TokenTree) :
    allLexemes (unwind frames done) = lead frames ++ allLexemes done.reverse := by
  induction frames generalizing done with
  | nil => simp [unwind, lead]
  | cons f fs ih => simp [unwind, lead, ih, allLexemes, lexemes]

theorem allLexemes_group (frames : List Frame) (done : List TokenTree) (ls : List Lexeme) :
    allLexemes (group frames done ls) = lead frames ++ allLexemes done.reverse ++ ls := by
  fun_induction group frames done ls with
  | case1 frames done => simp [allLexemes_unwind]
  | case2 frames done l ls b _ ih => simp [ih, lead, allLexemes]
  | case3 done l ls _ f fs _ ih => simp [ih, lead, allLexemes, lexemes]
  | case4 done l ls _ f fs _ ih => simp [ih, allLexemes, lexemes]
  | case5 done l ls _ ih => simp [ih, allLexemes, lexemes]

theorem lexemes_forest (cs : List Char) : allLexemes (forest cs) = tokenize cs := by
  simp [forest, allLexemes_group, lead, allLexemes]

theorem source_forest (cs : List Char) : (forest cs).flatMap source = cs := by
  have h : ∀ ts : List TokenTree,
      ts.flatMap source = (allLexemes ts).flatMap Lexeme.source := by
    intro ts
    induction ts with
    | nil => simp [allLexemes]
    | cons t ts ih => simp [allLexemes, ih, source]
  rw [h, lexemes_forest, flatMap_source_tokenize]

end TokenTree

end CssPruning
