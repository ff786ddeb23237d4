import CssPruning.Sheet.Walk

/-!
# Nodes, what is inside of them, and places

A sheet is a list of trees, and the functions on it come in pairs, one on a node
and one on nodes in a row.  Statements about them are proved over rows of nodes
only: `Node.rowInduction` has a case for each kind of first node, with the row
inside of it and the row behind it at hand.

`Place` is a spot of a sheet at which one node stands: the siblings on either
side, and the rules and at-rules around.  Every occurrence of a node in a sheet
is the filling of some place, so that "at any depth" is a statement about all
places.
-/

set_option autoImplicit false

namespace CssPruning

namespace Node

/-! ## Induction over rows -/

/-- What holds of the empty row, and of a row with any kind of node in front as
soon as it holds inside of that node and behind it, holds of every row. -/
@[elab_as_elim] theorem rowInduction {motive : List Node → Prop} (nil : motive [])
    (rule : ∀ selector children ns, motive children → motive ns →
      motive (rule selector children :: ns))
    (statement : ∀ name prelude ns, motive ns → motive (atRule name prelude none :: ns))
    (block : ∀ name prelude children ns, motive children → motive ns →
      motive (atRule name prelude (some children) :: ns))
    (declaration : ∀ d ns, motive ns → motive (declaration d :: ns))
    (comment : ∀ text ns, motive ns → motive (comment text :: ns))
    (raw : ∀ text ns, motive ns → motive (raw text :: ns)) (ns : List Node) : motive ns := by
  -- a node is told by what it does in front of a row, a block by the row that it is
  refine @Node.rec_1 (fun n => ∀ ns, motive ns → motive (n :: ns)) motive
    (fun b => ∀ children, b = some children → motive children) ?_ ?_ ?_ ?_ ?_ nil ?_ ?_ ?_ ns
  case refine_1 => exact fun selector children h ns => rule selector children ns h
  case refine_2 =>
    intro name prelude b h ns hns
    cases b with
    | none => exact statement name prelude ns hns
    | some children => exact block name prelude children ns (h children rfl) hns
  case refine_3 => exact declaration
  case refine_4 => exact comment
  case refine_5 => exact raw
  case refine_6 => exact fun n ns hn hns => hn ns hns
  case refine_7 => exact fun children h => nomatch h
  case refine_8 =>
    intro children h ns hns
    rw [← Option.some.inj hns]
    exact h

/-! ## Nodes at any depth -/

mutual

/-- The node and those inside of it, at any depth. -/
def subnodes : Node → List Node
  | rule selector children => rule selector children :: allSubnodes children
  | atRule name prelude none => [atRule name prelude none]
  | atRule name prelude (some children) =>
    atRule name prelude (some children) :: allSubnodes children
  | declaration d => [declaration d]
  | comment text => [comment text]
  | raw text => [raw text]
termination_by structural n => n

/-- Some nodes in a row and those inside of them, at any depth. -/
def allSubnodes : List Node → List Node
  | [] => []
  | n :: ns => subnodes n ++ allSubnodes ns
termination_by structural ns => ns

end

@[simp] theorem allSubnodes_append (ns ms : List Node) :
    allSubnodes (ns ++ ms) = allSubnodes ns ++ allSubnodes ms := by
  induction ns with
  | nil => rfl
  | cons n ns ih => simp [allSubnodes, ih]

theorem length_allSubnodes_pos (n : Node) (ns : List Node) :
    0 < (allSubnodes (n :: ns)).length := by
  have hsubnodes : subnodes n ≠ [] := by
    cases n with
    | atRule name prelude b => cases b <;> exact List.cons_ne_nil _ _
    | _ => exact List.cons_ne_nil _ _
  have := List.length_pos_iff.2 hsubnodes
  rw [allSubnodes, List.length_append]
  omega

/-! ## At-rules at any depth -/

mutual

/-- The at-rules of a node at any depth, in the order of the text. -/
def atRules : Node → List AtRule
  | rule _ children => allAtRules children
  | atRule name prelude none => [⟨name, prelude, none⟩]
  | atRule name prelude (some children) =>
    ⟨name, prelude, some children⟩ :: allAtRules children
  | declaration _ | comment _ | raw _ => []
termination_by structural n => n

/-- The at-rules of some nodes in a row at any depth. -/
def allAtRules : List Node → List AtRule
  | [] => []
  | n :: ns => atRules n ++ allAtRules ns
termination_by structural ns => ns

end

@[simp] theorem allAtRules_append (ns ms : List Node) :
    allAtRules (ns ++ ms) = allAtRules ns ++ allAtRules ms := by
  induction ns with
  | nil => rfl
  | cons n ns ih => simp [allAtRules, ih]

/-! ## Declarations under rules -/

@[simp] theorem allDeclarations_append (underRule : Bool) (ns ms : List Node) :
    allDeclarations underRule (ns ++ ms) =
      allDeclarations underRule ns ++ allDeclarations underRule ms := by
  induction ns with
  | nil => rfl
  | cons n ns ih => simp [allDeclarations, ih]

end Node

/-! ## Places -/

/-- A spot of a sheet for one node: what stands before and behind it, and the
rules and at-rules around it. -/
inductive Place where
  | root (before after : List Node)
  | inRule (outer : Place) (selector : String) (before after : List Node)
  | inAtRule (outer : Place) (name : String) (prelude : Option String)
      (before after : List Node)

namespace Place

/-- The sheet with a node at the place. -/
def fill : Place → Node → Sheet
  | root before after, n => before ++ n :: after
  | inRule outer selector before after, n => outer.fill (.rule selector (before ++ n :: after))
  | inAtRule outer name prelude before after, n =>
    outer.fill (.atRule name prelude (some (before ++ n :: after)))

/-- The rules and at-rules around the place, innermost first. -/
def containers : Place → List Container
  | root _ _ => []
  | inRule outer selector _ _ => .rule selector :: outer.containers
  | inAtRule outer name _ _ _ => .atRule name :: outer.containers

/-- The at-rules around a node at the place, innermost first. -/
def around : Place → Node → List AtRule
  | root _ _, _ => []
  | inRule outer selector before after, n => outer.around (.rule selector (before ++ n :: after))
  | inAtRule outer name prelude before after, n =>
    ⟨name, prelude, some (before ++ n :: after)⟩ ::
      outer.around (.atRule name prelude (some (before ++ n :: after)))

/-- A style rule is around the place. -/
def UnderRule (p : Place) : Prop := ∃ selector, .rule selector ∈ p.containers

/-- What a node declares inside and outside of rules is declared by the sheet. -/
theorem mem_allDeclarations_fill {p : Place} {n : Node} {x : Declaration × Bool}
    (h : ∀ underRule, x ∈ n.declarations underRule) (underRule : Bool) :
    x ∈ Node.allDeclarations underRule (p.fill n) := by
  induction p generalizing n with
  | root before after =>
    simp [fill, Node.allDeclarations, h]
  | inRule outer selector before after ih =>
    apply ih
    intro u
    simp [Node.declarations, Node.allDeclarations, h]
  | inAtRule outer name prelude before after ih =>
    apply ih
    intro u
    simp [Node.declarations, Node.allDeclarations, h]

/-- What a node declares inside of rules is declared by a sheet that has it at a
place under a rule. -/
theorem mem_allDeclarations_fill_of_underRule {p : Place} {n : Node} {x : Declaration × Bool}
    (hp : p.UnderRule) (h : x ∈ n.declarations true) (underRule : Bool) :
    x ∈ Node.allDeclarations underRule (p.fill n) := by
  obtain ⟨selector, hp⟩ := hp
  induction p generalizing n with
  | root before after => cases hp
  | inRule outer s before after ih =>
    -- the rule itself is all that counts, whatever is around it
    rw [fill]
    apply mem_allDeclarations_fill
    intro u
    simp [Node.declarations, Node.allDeclarations, h]
  | inAtRule outer name prelude before after ih =>
    rw [containers, List.mem_cons] at hp
    rcases hp with hp | hp
    · cases hp
    · apply ih _ hp
      simp [Node.declarations, Node.allDeclarations, h]

end Place

end CssPruning
