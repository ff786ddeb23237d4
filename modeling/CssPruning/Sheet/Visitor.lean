import CssPruning.Sheet.Basic

/-!
# Visitors

A visitor goes over a sheet in the order of the text, and carries a state along.
It has a hook for each kind of node that it is told about; raw text it is not told
about.  The hook of a rule or at-rule is handed the visit to what is inside, and it
is up to the hook to go on there or not, and to do something before and after.

Without hooks of its own a visitor goes on everywhere and does nothing.
-/

set_option autoImplicit false

namespace CssPruning

/-- The nearest rule or at-rule around a node, with all that is in it. -/
inductive Parent where
  | root
  | rule (selector : String) (children : List Node)
  | atRule (r : AtRule)
  deriving Inhabited

/-- What to do about each kind of node.  Declarations and comments come with their
parent, rules and at-rules with the visit to what is inside of them. -/
structure Visitor (σ : Type) where
  rule : String → List Node → (σ → σ) → σ → σ := fun _ _ inside => inside
  atRule : AtRule → (σ → σ) → σ → σ := fun _ inside => inside
  declaration : Declaration → Parent → σ → σ := fun _ _ s => s
  comment : String → Parent → σ → σ := fun _ _ s => s

namespace Node

mutual

/-- The visit to a node. -/
def visit {σ : Type} (v : Visitor σ) (parent : Parent) : Node → σ → σ
  | rule selector children =>
    v.rule selector children (visitAll v (.rule selector children) children)
  | atRule name prelude none => v.atRule ⟨name, prelude, none⟩ id
  | atRule name prelude (some children) =>
    let r : AtRule := ⟨name, prelude, some children⟩
    v.atRule r (visitAll v (.atRule r) children)
  | declaration d => v.declaration d parent
  | comment text => v.comment text parent
  | raw _ => id
termination_by structural n => n

/-- The visit to some nodes in a row. -/
def visitAll {σ : Type} (v : Visitor σ) (parent : Parent) : List Node → σ → σ
  | [] => id
  | n :: ns => fun s => visitAll v parent ns (visit v parent n s)
termination_by structural ns => ns

end

theorem visitAll_cons {σ : Type} (v : Visitor σ) (parent : Parent) (n : Node) (ns : List Node)
    (s : σ) : visitAll v parent (n :: ns) s = visitAll v parent ns (visit v parent n s) := rfl

end Node

/-- The visit to a sheet. -/
def Sheet.visit {σ : Type} (v : Visitor σ) (sheet : Sheet) : σ → σ :=
  Node.visitAll v .root sheet

end CssPruning
