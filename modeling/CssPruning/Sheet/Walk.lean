import CssPruning.Sheet.Basic

/-!
# Walking over a sheet

A walk lists what it meets in the order of the text: rules and at-rules as they
are entered and left, declarations and comments with the container they stand
in.  Raw text is passed over.  A walk may be told to look no further inside of
some at-rules; it still enters and leaves them.

For the passes that only need the declarations there is the flat list of them,
each with whether a style rule is around it (`declarations`).
-/

set_option autoImplicit false

namespace CssPruning

/-- The nearest rule or at-rule around a node. -/
inductive Container where
  | root
  | rule (selector : String)
  | atRule (name : String)
  deriving DecidableEq, Repr, Inhabited

/-- A step of a walk. -/
inductive Visit where
  | enterRule (selector : String)
  | leaveRule
  | enterAtRule (name : String)
  | leaveAtRule
  | declaration (d : Declaration) (container : Container)
  | comment (text : String) (container : Container)
  deriving Repr, Inhabited

namespace Node

mutual

/-- The steps of a walk over a node.  `skip` holds for the at-rules not to look
into. -/
def walk (skip : AtRule → Bool) (container : Container) : Node → List Visit
  | rule selector children =>
    .enterRule selector :: walkAll skip (.rule selector) children ++ [.leaveRule]
  | atRule name _ none => [.enterAtRule name, .leaveAtRule]
  | atRule name prelude (some children) =>
    .enterAtRule name ::
      (if skip ⟨name, prelude, some children⟩ then [] else walkAll skip (.atRule name) children)
      ++ [.leaveAtRule]
  | declaration d => [.declaration d container]
  | comment text => [.comment text container]
  | raw _ => []
termination_by structural n => n

/-- The steps of a walk over some nodes in a row. -/
def walkAll (skip : AtRule → Bool) (container : Container) : List Node → List Visit
  | [] => []
  | n :: ns => walk skip container n ++ walkAll skip container ns
termination_by structural ns => ns

end

mutual

/-- The declarations of a node, in order, each with whether a style rule is
around it. -/
def declarations (underRule : Bool) : Node → List (Declaration × Bool)
  | rule _ children => allDeclarations true children
  | atRule _ _ none => []
  | atRule _ _ (some children) => allDeclarations underRule children
  | declaration d => [(d, underRule)]
  | comment _ | raw _ => []
termination_by structural n => n

/-- The declarations of some nodes in a row. -/
def allDeclarations (underRule : Bool) : List Node → List (Declaration × Bool)
  | [] => []
  | n :: ns => declarations underRule n ++ allDeclarations underRule ns
termination_by structural ns => ns

end

end Node

namespace Sheet

/-- The steps of a walk over a sheet. -/
def walk (skip : AtRule → Bool) (s : Sheet) : List Visit := Node.walkAll skip .root s

/-- The declarations of a sheet in order, each with whether a style rule is
around it. -/
def declarations (s : Sheet) : List (Declaration × Bool) := Node.allDeclarations false s

end Sheet

end CssPruning
