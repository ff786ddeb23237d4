import CssPruning.Proofs.Sheet.Addresses
import CssPruning.Proofs.Sheet.Deletion

/-!
# Where a pass takes at-rules away

A node of a sheet has a position: its index in its row, behind the indices of the
nodes around it.  The positions of the at-rules that a pass takes away
(`Node.allRejected`) are all that is needed to tell what it leaves: the sheet
without the nodes at these positions, whatever they are
(`Sheet.withoutAt_removed`).
-/

set_option autoImplicit false

namespace CssPruning

namespace Node

mutual

/-- The positions, inside of a node, of the at-rules that a pass takes away; none for the node
itself. -/
def rejected (keep : AtRule → Bool) : Node → List (List Nat)
  | atRule name prelude none => if keep ⟨name, prelude, none⟩ then [] else [[]]
  | atRule name prelude (some children) =>
    if keep ⟨name, prelude, some children⟩ then allRejected keep 0 children else [[]]
  | rule _ children => allRejected keep 0 children
  | declaration _ | comment _ | raw _ => []
termination_by structural n => n

/-- The positions of the at-rules that a pass takes away from the nodes of a row, whose first one
has the given index. -/
def allRejected (keep : AtRule → Bool) (index : Nat) : List Node → List (List Nat)
  | [] => []
  | n :: ns => (rejected keep n).map (index :: ·) ++ allRejected keep (index + 1) ns
termination_by structural ns => ns

end

mutual

/-- The node without what is inside of it at some positions. -/
def inside (gone : List Nat → Bool) : Node → Node
  | atRule name prelude none => atRule name prelude none
  | atRule name prelude (some children) => atRule name prelude (some (without gone 0 children))
  | rule selector children => rule selector (without gone 0 children)
  | declaration d => declaration d
  | comment text => comment text
  | raw text => raw text
termination_by structural n => n

/-- The nodes of a row without those at some positions. -/
def without (gone : List Nat → Bool) (index : Nat) : List Node → List Node
  | [] => []
  | n :: ns =>
    let rest := without gone (index + 1) ns
    if gone [index] then rest else inside (fun position => gone (index :: position)) n :: rest
termination_by structural ns => ns

end

/-- What is left of a node when nodes at some positions inside of it, perhaps the empty one, go. -/
def remains (gone : List Nat → Bool) (n : Node) : Option Node :=
  if gone [] then none else some (inside gone n)

theorem without_cons (gone : List Nat → Bool) (index : Nat) (n : Node) (ns : List Node) :
    without gone index (n :: ns) =
      (remains (fun position => gone (index :: position)) n).toList ++
        without gone (index + 1) ns := by
  rw [without, remains]
  split <;> rfl

/-! ## Positions in a row -/

/-- Some positions are, from an index on, those in a list. -/
def Marks (gone : List Nat → Bool) (index : Nat) (positions : List (List Nat)) : Prop :=
  ∀ i position, index ≤ i → (gone (i :: position) = true ↔ i :: position ∈ positions)

section

variable {gone : List Nat → Bool} {index : Nat} {own others : List (List Nat)}
  (hmarks : Marks gone index (own.map (index :: ·) ++ others))

include hmarks in
/-- A position inside of the first node is in the list with the index in front. -/
theorem Marks.first (hrow : InRow (index + 1) others) (position : List Nat) :
    gone (index :: position) = true ↔ position ∈ own := by
  rw [hmarks index position (Nat.le_refl _), List.mem_append, List.mem_map]
  constructor
  · rintro (⟨position', hmem, heq⟩ | hmem)
    · rwa [← (List.cons.inj heq).2]
    · obtain ⟨i, position', heq, hle⟩ := hrow.exists_eq _ hmem
      rw [← (List.cons.inj heq).1] at hle
      exact absurd hle (Nat.not_succ_le_self index)
  · exact fun hmem => .inl ⟨position, hmem, rfl⟩

include hmarks in
/-- A position in the rest of the row is in the rest of the list. -/
theorem Marks.rest : Marks gone (index + 1) others := by
  intro i position hle
  rw [hmarks i position (Nat.le_of_succ_le hle), List.mem_append, List.mem_map]
  refine or_iff_right ?_
  rintro ⟨position', -, heq⟩
  rw [← (List.cons.inj heq).1] at hle
  exact absurd hle (Nat.not_succ_le_self index)

end

theorem Marks.of_le_succ {gone : List Nat → Bool} {index : Nat} {positions : List (List Nat)}
    (h : Marks gone index positions) : Marks gone (index + 1) positions :=
  fun i position hle => h i position (Nat.le_of_succ_le hle)

/-- A first node stays if no position is inside of it, and if nothing in it could go. -/
theorem Marks.without_cons {gone : List Nat → Bool} {index : Nat} {n : Node}
    {others : List (List Nat)} (h : Marks gone index others) (hrow : InRow (index + 1) others)
    (hn : ∀ gone, inside gone n = n) (ns : List Node) :
    without gone index (n :: ns) = n :: without gone (index + 1) ns := by
  have hstays : ¬ gone [index] = true := by
    rw [@Marks.first gone index [] others h hrow]
    exact List.not_mem_nil
  rw [without, if_neg hstays, hn]

/-- If the positions inside of a node are those in a row of its block, the node itself stays. -/
theorem InRow.marks {gone : List Nat → Bool} {positions : List (List Nat)}
    (hrow : InRow 0 positions) (h : ∀ position, gone position = true ↔ position ∈ positions) :
    gone [] = false ∧ Marks gone 0 positions := by
  refine ⟨?_, fun i position _ => h (i :: position)⟩
  rw [← Bool.not_eq_true, h]
  exact hrow.nil_not_mem

section

variable {keep : AtRule → Bool}

/-- What a pass takes away comes in the order of the text. -/
theorem inRow_allRejected (index : Nat) (ns : List Node) :
    InRow index (allRejected keep index ns) := by
  induction ns using rowInduction generalizing index with
  | nil => exact .nil index
  | rule selector children ns ihc ih => exact .cons (ihc 0).inOrder (ih _)
  | statement name prelude ns ih =>
    refine .cons ?_ (ih _)
    rw [rejected]
    split
    · exact .nil
    · exact List.pairwise_singleton _ _
  | block name prelude children ns ihc ih =>
    refine .cons ?_ (ih _)
    rw [rejected]
    split
    · exact (ihc 0).inOrder
    · exact List.pairwise_singleton _ _
  | declaration d ns ih => exact (ih _).of_succ
  | comment text ns ih => exact (ih _).of_succ
  | raw text ns ih => exact (ih _).of_succ

/-- What a pass leaves is the row without the nodes at the positions of the at-rules that it takes
away. -/
theorem without_eq_allKept {gone : List Nat → Bool} {index : Nat} {ns : List Node}
    (h : Marks gone index (allRejected keep index ns)) :
    without gone index ns = allKept keep ns := by
  induction ns using rowInduction generalizing gone index with
  | nil => rfl
  | rule selector children ns ihc ih =>
    have hfirst := Marks.first h (inRow_allRejected _ ns)
    obtain ⟨hstays, hinside⟩ := (inRow_allRejected 0 children).marks hfirst
    rw [without_cons, ih (Marks.rest h), remains, hstays, inside, ihc hinside]
    rfl
  | statement name prelude ns ih =>
    have hfirst := Marks.first h (inRow_allRejected _ ns)
    rw [without_cons, ih (Marks.rest h), allKept, remains, kept]
    cases hkeep : keep ⟨name, prelude, none⟩ with
    | true =>
      have hstays : ¬ gone [index] = true := by simp [hfirst, rejected, hkeep]
      rw [if_neg hstays]
      rfl
    | false =>
      have hgoes : gone [index] = true := by simp [hfirst, rejected, hkeep]
      rw [if_pos hgoes]
      rfl
  | block name prelude children ns ihc ih =>
    have hfirst := Marks.first h (inRow_allRejected _ ns)
    rw [without_cons, ih (Marks.rest h), allKept, kept]
    cases hkeep : keep ⟨name, prelude, some children⟩ with
    | true =>
      have hblock : rejected keep (atRule name prelude (some children)) =
          allRejected keep 0 children := by rw [rejected, hkeep]; rfl
      obtain ⟨hstays, hinside⟩ := (inRow_allRejected 0 children).marks (hblock ▸ hfirst)
      rw [remains, hstays, inside, ihc hinside]
      rfl
    | false =>
      have hgoes : gone [index] = true := by simp [hfirst, rejected, hkeep]
      rw [remains, if_pos hgoes]
      rfl
  | declaration d ns ih =>
    rw [h.without_cons (inRow_allRejected _ ns) fun _ => rfl, ih h.of_le_succ]
    rfl
  | comment text ns ih =>
    rw [h.without_cons (inRow_allRejected _ ns) fun _ => rfl, ih h.of_le_succ]
    rfl
  | raw text ns ih =>
    rw [h.without_cons (inRow_allRejected _ ns) fun _ => rfl, ih h.of_le_succ]
    rfl

end

end Node

namespace Sheet

/-- The positions of the at-rules that a pass with a test takes away from a sheet. -/
def removed (keep : AtRule → Bool) (s : Sheet) : List (List Nat) := Node.allRejected keep 0 s

/-- The sheet without the nodes at some positions. -/
def withoutAt (positions : List (List Nat)) (s : Sheet) : Sheet :=
  Node.without positions.contains 0 s

/-- What a pass leaves is told by the positions of the at-rules that it takes away. -/
theorem withoutAt_removed (keep : AtRule → Bool) (s : Sheet) :
    s.withoutAt (s.removed keep) = (s.prune keep).sheet := by
  rw [Node.sheet_prune]
  exact Node.without_eq_allKept fun i position _ => List.contains_iff_mem

end Sheet

end CssPruning
