import CssPruning.Proofs.Sheet.Addresses
import CssPruning.Sheet.Visitor
import CssPruning.Sheet.Walk
import Mathlib.Data.List.Basic

/-!
# The calls of a visitor that walks on

A walker is a visitor that goes on inside of every rule, and inside of the at-rules
that it does not pass over.  Its calls are told without it by a tour of the sheet
(`Sheet.Tour`): the calls are nested as the nodes are, each with the position of its
node, and the positions are those of all nodes but raw texts that no at-rule passed
over is around, in the order of the text.

A tour of a row is put together from tours of its nodes (`Node.RowTour.cons`), and
the tour of a rule or at-rule from a tour of the row inside (`Node.OwnTour.container`).
-/

set_option autoImplicit false

namespace CssPruning

/-! ## Calls and steps -/

/-- A call of a hook.  An at-rule is entered to go on inside of it or to pass over
what is there. -/
inductive Hook where
  | enterRule (selector : String) (children : List Node)
  | leaveRule (selector : String) (children : List Node)
  | enterAtRule (r : AtRule) (passedOver : Bool)
  | leaveAtRule (r : AtRule)
  | declaration (d : Declaration) (parent : Parent)
  | comment (text : String) (parent : Parent)

namespace Hook

/-- The node that the call is about. -/
def node : Hook → Node
  | enterRule selector children | leaveRule selector children => .rule selector children
  | enterAtRule r _ | leaveAtRule r => r.toNode
  | declaration d _ => .declaration d
  | comment text _ => .comment text

/-- The call is the first one about its node. -/
def opens : Hook → Bool
  | leaveRule _ _ | leaveAtRule _ => false
  | _ => true

/-- The call is for an at-rule to pass over. -/
def passesOver : Hook → Bool
  | enterAtRule _ passedOver => passedOver
  | _ => false

/-- The at-rule that is entered. -/
def entered : Hook → Option AtRule
  | enterAtRule r _ => some r
  | _ => none

/-- The call is about a declaration or comment, and hands over this parent. -/
inductive IsUnder (parent : Parent) : Hook → Prop where
  | declaration (d : Declaration) : IsUnder parent (declaration d parent)
  | comment (text : String) : IsUnder parent (comment text parent)

/-- The one call enters and the other leaves the same rule or at-rule, which is the
parent of what is directly inside. -/
inductive Encloses : Hook → Hook → Parent → Prop where
  | rule (selector : String) (children : List Node) :
    Encloses (enterRule selector children) (leaveRule selector children)
      (.rule selector children)
  | atRule (r : AtRule) (passedOver : Bool) :
    Encloses (enterAtRule r passedOver) (leaveAtRule r) (.atRule r)

end Hook

/-- A call, and the position of its node. -/
structure Step where
  position : List Nat
  hook : Hook

namespace Step

/-- The step on a node of the block of the node at an index. -/
def under (index : Nat) (step : Step) : Step := { step with position := index :: step.position }

/-- The positions of some of the steps. -/
def positions (p : Hook → Bool) (steps : List Step) : List (List Nat) :=
  (steps.filter fun step => p step.hook).map (·.position)

/-- The positions of the nodes that the visitor is told about. -/
def opened (steps : List Step) : List (List Nat) := positions Hook.opens steps

/-- The positions of the at-rules that are passed over. -/
def passedOver (steps : List Step) : List (List Nat) := positions Hook.passesOver steps

section

variable {p : Hook → Bool}

theorem positions_append (steps steps' : List Step) :
    positions p (steps ++ steps') = positions p steps ++ positions p steps' := by
  rw [positions, List.filter_append, List.map_append]
  rfl

theorem positions_map_under (index : Nat) (steps : List Step) :
    positions p (steps.map (under index)) = (positions p steps).map (index :: ·) := by
  rw [positions, List.filter_map, List.map_map, positions, List.map_map]
  rfl

theorem positions_cons_of_pos {step : Step} (h : p step.hook = true) (steps : List Step) :
    positions p (step :: steps) = step.position :: positions p steps := by
  rw [positions, List.filter_cons, if_pos h]
  rfl

theorem positions_cons_of_neg {step : Step} (h : p step.hook = false) (steps : List Step) :
    positions p (step :: steps) = positions p steps := by
  rw [positions, List.filter_cons, if_neg (Bool.eq_false_iff.1 h)]
  rfl

/-- To pass over an at-rule the visitor is told about it. -/
theorem passedOver_sublist_opened (steps : List Step) :
    (passedOver steps).Sublist (opened steps) := by
  refine List.Sublist.map _ (List.monotone_filter_right steps fun step => ?_)
  cases step.hook <;> simp [Hook.passesOver, Hook.opens]

theorem map_hook_map_under (index : Nat) (steps : List Step) :
    (steps.map (under index)).map (·.hook) = steps.map (·.hook) := by
  rw [List.map_map]
  rfl

end

/-! ### Entering and leaving -/

/-- Some steps inside of a node, between entering and leaving it. -/
def between (enter leave : Hook) (inner : List Step) : List Step :=
  ⟨[], enter⟩ :: (inner ++ [⟨[], leave⟩])

section

variable {enter leave : Hook} {within : Parent} (h : enter.Encloses leave within)

include h in
theorem opened_between (inner : List Step) :
    opened (between enter leave inner) = [] :: opened inner := by
  have henter : enter.opens = true := by cases h <;> rfl
  have hleave : leave.opens = false := by cases h <;> rfl
  rw [opened, between, positions_cons_of_pos henter, positions_append,
    positions_cons_of_neg hleave]
  exact congrArg _ (List.append_nil _)

include h in
theorem passedOver_between_of_pos (hover : enter.passesOver = true) :
    passedOver (between enter leave []) = [[]] := by
  have hleave : leave.passesOver = false := by cases h <;> rfl
  rw [passedOver, between, positions_cons_of_pos hover, List.nil_append,
    positions_cons_of_neg hleave]
  rfl

include h in
theorem passedOver_between_of_neg (hover : enter.passesOver = false) (inner : List Step) :
    passedOver (between enter leave inner) = passedOver inner := by
  have hleave : leave.passesOver = false := by cases h <;> rfl
  rw [passedOver, between, positions_cons_of_neg hover, positions_append,
    positions_cons_of_neg hleave]
  exact List.append_nil _

end

end Step

/-! ## Tours -/

/-- Some steps inside of the node at a position: each declaration and comment comes
with the node as its parent, and each rule and at-rule is entered and left, with
nothing in between but steps inside of it. -/
inductive Nested : List Nat → Parent → List Step → Prop where
  | nil {p : List Nat} {parent : Parent} : Nested p parent []
  | report {p : List Nat} {parent : Parent} {i : Nat} {hook : Hook} {steps : List Step} :
    hook.IsUnder parent → Nested p parent steps →
    Nested p parent (⟨p ++ [i], hook⟩ :: steps)
  | container {p : List Nat} {parent within : Parent} {i : Nat} {enter leave : Hook}
    {inner steps : List Step} :
    enter.Encloses leave within → (enter.passesOver = true → inner = []) →
    Nested (p ++ [i]) within inner → Nested p parent steps →
    Nested p parent (⟨p ++ [i], enter⟩ :: (inner ++ ⟨p ++ [i], leave⟩ :: steps))

/-- The steps through a sheet. -/
structure Sheet.Tour (sheet : Sheet) (steps : List Step) : Prop where
  /-- steps through a rule or at-rule are between entering and leaving it -/
  nested : Nested [] .root steps
  /-- each call is about the node at the position -/
  stands : ∀ step ∈ steps, sheet.at? step.position = some step.hook.node
  /-- the nodes come in the order of the text, each of them once -/
  inOrder : (Step.opened steps).Pairwise (· < ·)
  /-- they are all but raw texts and what an at-rule that is passed over is around -/
  mem_opened_iff : ∀ position, position ∈ Step.opened steps ↔
    (∃ n, sheet.at? position = some n ∧ ∀ text, n ≠ .raw text) ∧
      ∀ outer ∈ Step.passedOver steps, ¬ IsAround outer position

theorem Nested.under {p : List Nat} {parent : Parent} {steps : List Step}
    (h : Nested p parent steps) (index : Nat) :
    Nested (index :: p) parent (steps.map (Step.under index)) := by
  induction h with
  | nil => exact .nil
  | report hhook _ ih => exact .report hhook ih
  | container henclose hover _ _ ihc ih =>
    rw [List.map_cons, List.map_append, List.map_cons]
    refine .container henclose (fun h => ?_) ihc ih
    rw [hover h]
    rfl

namespace Node

/-- The steps through a node, with positions inside of it. -/
structure OwnTour (parent : Parent) (n : Node) (own : List Step) : Prop where
  nested : ∀ (index : Nat) (steps : List Step), Nested [] parent steps →
    Nested [] parent (own.map (Step.under index) ++ steps)
  stands : ∀ step ∈ own, n.at? step.position = some step.hook.node
  inOrder : (Step.opened own).Pairwise (· < ·)
  not_isAround : ∀ p ∈ Step.opened own, ∀ outer ∈ Step.passedOver own, ¬ IsAround outer p
  complete : ∀ position m, n.at? position = some m → (∀ text, m ≠ .raw text) →
    (∀ outer ∈ Step.passedOver own, ¬ IsAround outer position) → position ∈ Step.opened own

/-- The steps through some nodes behind others in a row. -/
structure RowTour (parent : Parent) (before ns : List Node) (steps : List Step) : Prop where
  nested : Nested [] parent steps
  stands : ∀ step ∈ steps, Sheet.at? (before ++ ns) step.position = some step.hook.node
  inRow : InRow before.length (Step.opened steps)
  not_isAround : ∀ p ∈ Step.opened steps, ∀ outer ∈ Step.passedOver steps, ¬ IsAround outer p
  complete : ∀ i position m, before.length ≤ i →
    Sheet.at? (before ++ ns) (i :: position) = some m → (∀ text, m ≠ .raw text) →
    (∀ outer ∈ Step.passedOver steps, ¬ IsAround outer (i :: position)) →
    i :: position ∈ Step.opened steps

/-- Of raw text nothing is told. -/
theorem OwnTour.raw (parent : Parent) (text : String) : OwnTour parent (.raw text) [] where
  nested _ _ h := h
  stands := nofun
  inOrder := .nil
  not_isAround := nofun
  complete position m hm hraw := by
    cases position with
    | nil => exact absurd (Option.some.inj hm).symm (hraw text)
    | cons i position => cases hm

/-- A node that nothing is inside of is told about once. -/
theorem OwnTour.report {parent : Parent} {hook : Hook} (h : hook.IsUnder parent) :
    OwnTour parent hook.node [⟨[], hook⟩] := by
  have hopened : Step.opened [⟨[], hook⟩] = [[]] := by cases h <;> rfl
  have hover : Step.passedOver [⟨[], hook⟩] = [] := by cases h <;> rfl
  have hchildren : hook.node.children = [] := by cases h <;> rfl
  constructor
  case nested => exact fun index steps hsteps => .report h hsteps
  case stands => exact List.forall_mem_singleton.2 rfl
  case inOrder => rw [hopened]; exact List.pairwise_singleton _ _
  case not_isAround => rw [hover]; exact fun _ _ => nofun
  case complete =>
    intro position m hm _ _
    rw [hopened, List.mem_singleton]
    cases position with
    | nil => rfl
    | cons i position =>
      rw [at?_cons, hchildren] at hm
      cases hm

/-- An at-rule that is passed over is entered and left. -/
theorem OwnTour.passedOver {parent within : Parent} {enter leave : Hook}
    (h : enter.Encloses leave within) (hover : enter.passesOver = true) :
    OwnTour parent enter.node (Step.between enter leave []) := by
  have hleave : leave.node = enter.node := by cases h <;> rfl
  constructor
  case nested => exact fun index steps hsteps => .container h (fun _ => rfl) .nil hsteps
  case stands =>
    rw [Step.between, List.nil_append, List.forall_mem_cons, List.forall_mem_singleton]
    exact ⟨rfl, congrArg some hleave.symm⟩
  case inOrder => rw [Step.opened_between h]; exact List.pairwise_singleton _ _
  case not_isAround =>
    rw [Step.opened_between h]
    intro p hp outer _
    rw [List.mem_singleton.1 hp]
    exact not_isAround_nil outer
  case complete =>
    intro position m _ _ hout
    rw [Step.opened_between h]
    rw [Step.passedOver_between_of_pos h hover] at hout
    cases position with
    | nil => exact List.mem_cons_self
    | cons i position =>
      exact absurd (isAround_nil_cons i position) (hout [] (List.mem_singleton_self _))

/-- A rule or at-rule that is not passed over is entered and left, with the steps
through the row inside of it in between. -/
theorem OwnTour.container {parent within : Parent} {enter leave : Hook} {inner : List Step}
    (h : enter.Encloses leave within) (hover : enter.passesOver = false)
    (hinner : RowTour within [] enter.node.children inner) :
    OwnTour parent enter.node (Step.between enter leave inner) := by
  have hleave : leave.node = enter.node := by cases h <;> rfl
  constructor
  case nested =>
    intro index steps hsteps
    have hpass : enter.passesOver = true → inner.map (Step.under index) = [] := by
      rw [hover]
      exact nofun
    rw [Step.between, List.map_cons, List.map_append, List.cons_append, List.append_assoc]
    exact .container h hpass (hinner.nested.under index) hsteps
  case stands =>
    rw [Step.between, List.forall_mem_cons, List.forall_mem_append, List.forall_mem_singleton]
    refine ⟨rfl, fun step hstep => ?_, congrArg some hleave.symm⟩
    have hstands := hinner.stands step hstep
    cases hposition : step.position with
    | nil => rw [hposition] at hstands; cases hstands
    | cons i position => rwa [hposition] at hstands
  case inOrder => rw [Step.opened_between h]; exact hinner.inRow.node
  case not_isAround =>
    rw [Step.opened_between h, Step.passedOver_between_of_neg h hover]
    intro p hp outer houter
    rcases List.mem_cons.1 hp with rfl | hp
    · exact not_isAround_nil outer
    · exact hinner.not_isAround p hp outer houter
  case complete =>
    intro position m hm hraw hout
    rw [Step.opened_between h]
    rw [Step.passedOver_between_of_neg h hover] at hout
    cases position with
    | nil => exact List.mem_cons_self
    | cons i position =>
      exact List.mem_cons_of_mem _ (hinner.complete i position m (Nat.zero_le _) hm hraw hout)

theorem RowTour.nil (parent : Parent) (before : List Node) : RowTour parent before [] [] where
  nested := .nil
  stands := nofun
  inRow := .nil _
  not_isAround := nofun
  complete i position m hi hm := by
    rw [List.append_nil, Sheet.at?_eq_none_of_le before hi] at hm
    cases hm

/-- The steps through a row are those through its first node and those through the
rest. -/
theorem RowTour.cons {parent : Parent} {before ns : List Node} {n : Node} {own steps : List Step}
    (hown : OwnTour parent n own) (hrest : RowTour parent (before ++ [n]) ns steps) :
    RowTour parent before (n :: ns) (own.map (Step.under before.length) ++ steps) := by
  have hlength : (before ++ [n]).length = before.length + 1 := List.length_append
  have hopened : Step.opened (own.map (Step.under before.length) ++ steps) =
      (Step.opened own).map (before.length :: ·) ++ Step.opened steps := by
    rw [Step.opened, Step.positions_append, Step.positions_map_under]
    rfl
  have hover : Step.passedOver (own.map (Step.under before.length) ++ steps) =
      (Step.passedOver own).map (before.length :: ·) ++ Step.passedOver steps := by
    rw [Step.passedOver, Step.positions_append, Step.positions_map_under]
    rfl
  have hrow : InRow (before.length + 1) (Step.opened steps) := hlength ▸ hrest.inRow
  constructor
  case nested => exact hown.nested before.length steps hrest.nested
  case stands =>
    rw [List.forall_mem_append, List.forall_mem_map]
    constructor
    · intro step hstep
      exact (Sheet.at?_append_cons before ns n step.position).trans (hown.stands step hstep)
    · rw [List.append_cons]
      exact hrest.stands
  case inRow => rw [hopened]; exact .cons hown.inOrder hrow
  case not_isAround =>
    rw [hopened, hover]
    intro p hp outer houter
    -- nodes with different indices in the row are not around each other
    rcases List.mem_append.1 hp with hp | hp <;> rcases List.mem_append.1 houter with houter | houter
    · obtain ⟨q, hq, rfl⟩ := List.mem_map.1 hp
      obtain ⟨outer', houter', rfl⟩ := List.mem_map.1 houter
      rw [isAround_cons_cons]
      exact fun h => hown.not_isAround q hq outer' houter' h.2
    · obtain ⟨q, -, rfl⟩ := List.mem_map.1 hp
      obtain ⟨i, outer, rfl, hi⟩ := hrow.exists_eq outer ((Step.passedOver_sublist_opened steps).subset houter)
      rw [isAround_cons_cons]
      exact fun h => absurd h.1 (Nat.ne_of_gt hi)
    · obtain ⟨outer, -, rfl⟩ := List.mem_map.1 houter
      obtain ⟨i, p, rfl, hi⟩ := hrow.exists_eq p hp
      rw [isAround_cons_cons]
      exact fun h => absurd h.1 (Nat.ne_of_lt hi)
    · exact hrest.not_isAround p hp outer houter
  case complete =>
    intro i position m hi hm hraw hout
    rw [hopened, List.mem_append]
    rw [hover] at hout
    rcases Nat.eq_or_lt_of_le hi with rfl | hi
    · rw [Sheet.at?_append_cons] at hm
      refine .inl (List.mem_map_of_mem (hown.complete position m hm hraw fun outer houter => ?_))
      have := hout _ (List.mem_append_left _ (List.mem_map_of_mem houter))
      rw [isAround_cons_cons] at this
      exact fun h => this ⟨rfl, h⟩
    · rw [List.append_cons] at hm
      refine .inr (hrest.complete i position m (hlength ▸ hi) hm hraw fun outer houter => ?_)
      exact hout outer (List.mem_append_right _ houter)

/-- The steps through a whole sheet. -/
theorem RowTour.tour {sheet : Sheet} {steps : List Step} (h : RowTour .root [] sheet steps) :
    sheet.Tour steps where
  nested := h.nested
  stands := h.stands
  inOrder := h.inRow.inOrder
  mem_opened_iff position := by
    constructor
    · intro hmem
      refine ⟨?_, h.not_isAround position hmem⟩
      obtain ⟨step, hstep, rfl⟩ := List.mem_map.1 hmem
      refine ⟨_, h.stands step (List.mem_filter.1 hstep).1, fun text => ?_⟩
      cases step.hook <;> nofun
    · rintro ⟨⟨n, hn, hraw⟩, hout⟩
      cases position with
      | nil => cases hn
      | cons i position => exact h.complete i position n (Nat.zero_le _) hn hraw hout

end Node

end CssPruning
