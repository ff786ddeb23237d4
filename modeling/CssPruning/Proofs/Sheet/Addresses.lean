import CssPruning.Proofs.Sheet.Forest

/-!
# The nodes at positions

A position is an index in a row and, behind it, a position inside of the node that
stands there.  So the nodes around a node are at the positions that its own goes on
from (`IsAround`), and the order of the text is the lexicographic order of
positions: a node comes in front of what is inside of it, and that in front of the
next one in the row (`Node.InRow`).
-/

set_option autoImplicit false

namespace CssPruning

namespace Node

/-- What stands directly inside of a node. -/
def children : Node → List Node
  | rule _ children => children
  | atRule _ _ (some children) => children
  | atRule _ _ none | declaration _ | comment _ | raw _ => []

/-- The node at a position inside of a node; the node itself is at the empty one. -/
def at? (n : Node) : List Nat → Option Node
  | [] => some n
  | i :: position => n.children[i]?.bind fun m => m.at? position

end Node

namespace Sheet

/-- The node at a position of a sheet. -/
def at? (s : Sheet) : List Nat → Option Node
  | [] => none
  | i :: position => s[i]?.bind fun n => n.at? position

/-- At the index of a node stands that node. -/
theorem at?_append_cons (before ns : List Node) (n : Node) (position : List Nat) :
    at? (before ++ n :: ns) (before.length :: position) = n.at? position := by
  rw [at?, List.getElem?_append_right (Nat.le_refl _), Nat.sub_self, List.getElem?_cons_zero]
  rfl

/-- Behind a row nothing stands. -/
theorem at?_eq_none_of_le (before : List Node) {i : Nat} (h : before.length ≤ i)
    (position : List Nat) : at? before (i :: position) = none := by
  rw [at?, List.getElem?_eq_none h]
  rfl

end Sheet

/-- Inside of a node its position counts no more. -/
theorem Node.at?_cons (n : Node) (i : Nat) (position : List Nat) :
    n.at? (i :: position) = Sheet.at? n.children (i :: position) := rfl

/-! ## Nodes around nodes -/

/-- The node at the one position is around the node at the other. -/
def IsAround (outer inner : List Nat) : Prop := ∃ i position, inner = outer ++ i :: position

theorem isAround_cons_cons {i j : Nat} {outer inner : List Nat} :
    IsAround (i :: outer) (j :: inner) ↔ i = j ∧ IsAround outer inner := by
  constructor
  · rintro ⟨k, position, h⟩
    obtain ⟨rfl, rfl⟩ := List.cons.inj h
    exact ⟨rfl, k, position, rfl⟩
  · rintro ⟨rfl, k, position, rfl⟩
    exact ⟨k, position, rfl⟩

theorem isAround_nil_cons (i : Nat) (position : List Nat) : IsAround [] (i :: position) :=
  ⟨i, position, rfl⟩

theorem not_isAround_nil (outer : List Nat) : ¬ IsAround outer [] := by
  rintro ⟨i, position, h⟩
  exact List.append_ne_nil_of_right_ne_nil outer (List.cons_ne_nil i position) h.symm

/-! ## The order of the text -/

namespace Node

/-- Some positions stand in the order of the text, all of them in the part of a row
that begins with an index. -/
structure InRow (index : Nat) (positions : List (List Nat)) : Prop where
  inOrder : positions.Pairwise (· < ·)
  exists_eq : ∀ p ∈ positions, ∃ i position, p = i :: position ∧ index ≤ i

theorem InRow.nil (index : Nat) : InRow index [] := ⟨.nil, nofun⟩

/-- Positions inside of the first node come in front of those in the rest of the
row. -/
theorem InRow.cons {index : Nat} {first rest : List (List Nat)}
    (hfirst : first.Pairwise (· < ·)) (hrest : InRow (index + 1) rest) :
    InRow index (first.map (index :: ·) ++ rest) := by
  constructor
  case inOrder =>
    rw [List.pairwise_append, List.pairwise_map]
    refine ⟨hfirst.imp fun h => List.cons_lt_cons_iff.2 (.inr ⟨rfl, h⟩), hrest.inOrder, ?_⟩
    intro p hp q hq
    obtain ⟨position, -, rfl⟩ := List.mem_map.1 hp
    obtain ⟨i, position', rfl, hi⟩ := hrest.exists_eq q hq
    exact List.cons_lt_cons_iff.2 (.inl hi)
  case exists_eq =>
    intro p hp
    rcases List.mem_append.1 hp with hp | hp
    · obtain ⟨position, -, rfl⟩ := List.mem_map.1 hp
      exact ⟨index, position, rfl, Nat.le_refl _⟩
    · obtain ⟨i, position, rfl, hi⟩ := hrest.exists_eq p hp
      exact ⟨i, position, rfl, Nat.le_of_succ_le hi⟩

/-- A node comes in front of what is inside of it. -/
theorem InRow.node {positions : List (List Nat)} {index : Nat} (h : InRow index positions) :
    ([] :: positions).Pairwise (· < ·) := by
  refine List.pairwise_cons.2 ⟨fun p hp => ?_, h.inOrder⟩
  obtain ⟨i, position, rfl, -⟩ := h.exists_eq p hp
  exact List.nil_lt_cons i position

theorem InRow.sublist {index : Nat} {positions some : List (List Nat)} (h : InRow index positions)
    (hsub : some.Sublist positions) : InRow index some :=
  ⟨h.inOrder.sublist hsub, fun p hp => h.exists_eq p (hsub.subset hp)⟩

theorem InRow.nil_not_mem {positions : List (List Nat)} {index : Nat}
    (h : InRow index positions) : [] ∉ positions := by
  intro hmem
  obtain ⟨i, position, heq, -⟩ := h.exists_eq [] hmem
  cases heq

/-- The positions of a row of which the first node has none. -/
theorem InRow.of_succ {index : Nat} {positions : List (List Nat)}
    (h : InRow (index + 1) positions) : InRow index positions :=
  @InRow.cons index [] positions .nil h

end Node

end CssPruning
