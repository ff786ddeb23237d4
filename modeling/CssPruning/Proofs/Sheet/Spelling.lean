import CssPruning.Proofs.Sheet.Reading
import CssPruning.Proofs.Token.Piece

/-!
# Texts that spell nodes

A text spells some nodes if it is read as them in front of every stop, and in
front of the end (`Spells`).  The empty text spells no node.  A text spells a node
and more if it is a piece that ends a statement, with a text behind it that
spells the others: a statement with its semicolon (`Spells.statement`), a head
with a block around a text that spells the children (`Spells.block`), or a
comment (`Spells.comment`).

What is asked of a statement or of a head is a matter of its own text only: that
it is closed, and how it is read before a semicolon or before an empty block.
-/

set_option autoImplicit false

namespace CssPruning

open Token TokenTree Sheet

/-- The text is read as some nodes in front of every stop. -/
def Spells (cs : List Char) (ns : List Node) : Prop :=
  ∃ ts, Piece Stopped cs ts ∧ Reads none ts ns

namespace Spells

variable {cs cs' : List Char} {n : Node} {ns children : List Node}

/-- A text that spells nodes is read as them. -/
theorem read_eq (h : Spells cs ns) : Sheet.read cs = .ok ns := by
  obtain ⟨ts, hpiece, hreads⟩ := h
  rw [Sheet.read, hpiece.forest_eq rfl]
  exact hreads.readTrees_eq

theorem nil : Spells [] [] := ⟨[], Piece.nil, .done⟩

/-- A piece that ends a statement, with more behind it. -/
theorem append {ts : List TokenTree} {t : TokenTree} (hpiece : Piece Anything cs (ts ++ [t]))
    (ht : endsStatement t = true) (hreads : Reads none (ts ++ [t]) [n]) (h : Spells cs' ns) :
    Spells (cs ++ cs') (n :: ns) := by
  obtain ⟨us, hpiece', hreads'⟩ := h
  refine ⟨_, hpiece.append hpiece' fun _ _ => trivial, ?_⟩
  rw [List.append_assoc, List.singleton_append]
  exact hreads.append ht (hreads'.moved cs.length)

/-- A statement whose semicolon is left out, at the end. -/
theorem of_semicolon (hclosed : isClosed cs = true) (hread : Sheet.read (cs ++ [';']) = .ok ns) :
    Spells cs ns := by
  obtain ⟨ts, hforest, hpiece⟩ := exists_piece_of_isClosed hclosed
  rw [Sheet.read, hforest, readTrees_eq_ok_iff] at hread
  exact ⟨ts, hpiece, hread.of_append_semicolon rfl⟩

/-- A statement with its semicolon. -/
theorem statement (hclosed : isClosed cs = true) (hread : Sheet.read (cs ++ [';']) = .ok [n])
    (h : Spells cs' ns) : Spells (cs ++ [';'] ++ cs') (n :: ns) := by
  obtain ⟨ts, hforest, hpiece⟩ := exists_piece_of_isClosed hclosed
  rw [Sheet.read, hforest, readTrees_eq_ok_iff] at hread
  have hsemicolon := hpiece.append Piece.semicolon fun _ _ => rfl
  exact append hsemicolon rfl hread h

/-- A statement whose semicolon is left out if nothing follows. -/
theorem statement_or_last {last : Bool} (hclosed : isClosed cs = true)
    (hread : Sheet.read (cs ++ [';']) = .ok [n]) (h : Spells cs' ns)
    (hlast : last = true → cs' = [] ∧ ns = []) :
    Spells (cs ++ (if !last then [';'] else []) ++ cs') (n :: ns) := by
  cases last with
  | false => exact statement hclosed hread h
  | true =>
    obtain ⟨rfl, rfl⟩ := hlast rfl
    simpa using of_semicolon hclosed hread

/-- A head with a block. -/
theorem block (hclosed : isClosed cs = true)
    (hread : Sheet.read (cs ++ ['\x7b', '\x7d']) = .ok [n]) (hchildren : Spells cs' children)
    {cs'' : List Char} (h : Spells cs'' ns) :
    Spells (cs ++ '\x7b' :: cs' ++ ['\x7d'] ++ cs'') (withChildren children n :: ns) := by
  obtain ⟨ts, -, hpiece⟩ := exists_piece_of_isClosed hclosed
  obtain ⟨us, hinner, hreads⟩ := hchildren
  have hempty := (hpiece.curly Piece.nil).forest_eq trivial
  have htext : cs ++ '\x7b' :: [] ++ ['\x7d'] = cs ++ ['\x7b', '\x7d'] := by simp
  rw [htext] at hempty
  rw [Sheet.read, hempty, readTrees_eq_ok_iff] at hread
  exact append (hpiece.curly hinner) rfl (hread.fill _ rfl (hreads.moved (cs.length + 1))) h

/-- A comment. -/
theorem comment {text : List Char} (htext : ¬ ['*', '/'] <:+: text) (h : Spells cs ns) :
    Spells ('/' :: '*' :: text ++ ['*', '/'] ++ cs) (.comment (String.ofList text) :: ns) := by
  obtain ⟨us, hpiece, hreads⟩ := h
  refine ⟨_, (Piece.comment htext).append hpiece fun _ _ => trivial, ?_⟩
  refine .comment rfl ?_ (hreads.moved _)
  simp [Lexeme.commentCloses]

end Spells

end CssPruning
