import CssPruning.Proofs.Sheet.Addresses
import Mathlib.Data.List.Sort

/-!
# The declarations of a sheet in a row

For some passes a sheet is no more than its declarations in the order of the text,
each with whether a style rule is around it, however far out.  `Sheet.Flattened` says
so by positions, and without a walk.  There is one such row for every sheet
(`Sheet.Flattened.eq`), and it is the one that `Sheet.declarations` lists
(`Sheet.exists_flattened`).
-/

set_option autoImplicit false

namespace CssPruning

/-- A declaration at a position, and whether a style rule is around it. -/
structure Declared where
  position : List Nat
  declaration : Declaration
  underRule : Bool

namespace Declared

/-- The declaration in the node at an index. -/
def under (index : Nat) (x : Declared) : Declared := { x with position := index :: x.position }

/-- The declaration without its position. -/
def pair (x : Declared) : Declaration × Bool := (x.declaration, x.underRule)

end Declared

/-! ## Style rules around positions -/

/-- A style rule is around the position. -/
def Sheet.RuleAround (sheet : Sheet) (position : List Nat) : Prop :=
  ∃ outer selector children, IsAround outer position ∧
    sheet.at? outer = some (.rule selector children)

namespace Node

/-- The node is a style rule. -/
def IsRule (n : Node) : Prop := ∃ selector children, n = .rule selector children

/-- A style rule, which may be the node itself, is around the position in it. -/
def RuleAround (n : Node) (position : List Nat) : Prop :=
  ∃ outer selector children, IsAround outer position ∧
    n.at? outer = some (.rule selector children)

theorem not_ruleAround_nil (n : Node) : ¬ n.RuleAround [] := by
  rintro ⟨outer, selector, children, houter, -⟩
  exact not_isAround_nil outer houter

theorem ruleAround_cons (n : Node) (i : Nat) (position : List Nat) :
    n.RuleAround (i :: position) ↔ n.IsRule ∨ Sheet.RuleAround n.children (i :: position) := by
  constructor
  · rintro ⟨outer, selector, children, houter, hrule⟩
    cases outer with
    | nil => exact .inl ⟨selector, children, Option.some.inj hrule⟩
    | cons j outer => exact .inr ⟨j :: outer, selector, children, houter, hrule⟩
  · rintro (⟨selector, children, rfl⟩ | ⟨outer, selector, children, houter, hrule⟩)
    · exact ⟨[], selector, children, isAround_nil_cons i position, rfl⟩
    · cases outer with
      | nil => cases hrule
      | cons j outer => exact ⟨j :: outer, selector, children, houter, hrule⟩

end Node

theorem Sheet.ruleAround_append_cons (before ns : List Node) (n : Node) (position : List Nat) :
    RuleAround (before ++ n :: ns) (before.length :: position) ↔ n.RuleAround position := by
  constructor
  · rintro ⟨outer, selector, children, houter, hrule⟩
    cases outer with
    | nil => cases hrule
    | cons j outer =>
      obtain ⟨rfl, hinside⟩ := isAround_cons_cons.1 houter
      rw [at?_append_cons] at hrule
      exact ⟨outer, selector, children, hinside, hrule⟩
  · rintro ⟨outer, selector, children, houter, hrule⟩
    refine ⟨before.length :: outer, selector, children, isAround_cons_cons.2 ⟨rfl, houter⟩, ?_⟩
    rw [at?_append_cons]
    exact hrule

/-! ## The row -/

/-- These are the declarations of a sheet, each once, in the order of the text. -/
structure Sheet.Flattened (sheet : Sheet) (ds : List Declared) : Prop where
  inOrder : (ds.map (·.position)).Pairwise (· < ·)
  mem_iff : ∀ x, x ∈ ds ↔ sheet.at? x.position = some (.declaration x.declaration) ∧
    (x.underRule = true ↔ sheet.RuleAround x.position)

/-- There is only one such row. -/
theorem Sheet.Flattened.eq {sheet : Sheet} {ds ds' : List Declared} (h : sheet.Flattened ds)
    (h' : sheet.Flattened ds') : ds = ds' := by
  have hasymm : Std.Asymm fun x y : Declared => x.position < y.position :=
    ⟨fun x y hlt => List.lt_asymm hlt⟩
  have hirrefl : Std.Irrefl fun x y : Declared => x.position < y.position :=
    ⟨fun x => List.lt_irrefl x.position⟩
  exact (List.pairwise_map.1 h.inOrder).eq_of_mem_iff (List.pairwise_map.1 h'.inOrder) fun x =>
    (h.mem_iff x).trans (h'.mem_iff x).symm

namespace Node

/-- The declarations of a node, with positions inside of it; `underRule` if a style rule
is around the node. -/
structure FlatNode (underRule : Bool) (n : Node) (own : List Declared) : Prop where
  inOrder : (own.map (·.position)).Pairwise (· < ·)
  mem_iff : ∀ position d b, ⟨position, d, b⟩ ∈ own ↔ n.at? position = some (.declaration d) ∧
    (b = true ↔ underRule = true ∨ n.RuleAround position)
  pairs : own.map (·.pair) = n.declarations underRule

/-- The declarations of some nodes behind others in a row. -/
structure FlatRow (underRule : Bool) (before ns : List Node) (ds : List Declared) : Prop where
  inRow : InRow before.length (ds.map (·.position))
  mem_iff : ∀ i position d b, before.length ≤ i → (⟨i :: position, d, b⟩ ∈ ds ↔
    Sheet.at? (before ++ ns) (i :: position) = some (.declaration d) ∧
      (b = true ↔ underRule = true ∨ Sheet.RuleAround (before ++ ns) (i :: position)))
  pairs : ds.map (·.pair) = allDeclarations underRule ns

theorem FlatNode.declaration (underRule : Bool) (d : Declaration) :
    FlatNode underRule (.declaration d) [⟨[], d, underRule⟩] where
  inOrder := List.pairwise_singleton _ _
  pairs := rfl
  mem_iff position d' b := by
    rw [List.mem_singleton, Declared.mk.injEq]
    cases position with
    | nil =>
      have hrule := (Node.declaration d).not_ruleAround_nil
      have hnode : (Node.declaration d).at? [] = some (.declaration d') ↔ d' = d := by
        rw [at?, Option.some.injEq, Node.declaration.injEq, eq_comm]
      rw [hnode, or_iff_left hrule, ← Bool.eq_iff_iff, eq_self, true_and]
    | cons i position =>
      constructor
      · exact fun h => absurd h.1 (List.cons_ne_nil i position)
      · exact fun h => absurd h.1 nofun

/-- A node that is none declares what is inside of it, under a rule if it is one. -/
theorem FlatNode.within {underRule inner : Bool} {n : Node} {ds : List Declared}
    (hnode : ∀ d, n ≠ .declaration d) (hinner : inner = true ↔ underRule = true ∨ n.IsRule)
    (hpairs : n.declarations underRule = allDeclarations inner n.children)
    (h : FlatRow inner [] n.children ds) : FlatNode underRule n ds where
  inOrder := h.inRow.inOrder
  pairs := h.pairs.trans hpairs.symm
  mem_iff position d b := by
    cases position with
    | nil =>
      have hmem : ⟨[], d, b⟩ ∉ ds := fun hmem =>
        h.inRow.nil_not_mem (List.mem_map_of_mem hmem)
      exact iff_of_false hmem fun hat => hnode d (Option.some.inj hat.1)
    | cons i position =>
      rw [h.mem_iff i position d b (Nat.zero_le i), hinner, or_assoc, ruleAround_cons, at?_cons]
      rfl

theorem FlatRow.nil (underRule : Bool) (before : List Node) : FlatRow underRule before [] [] where
  inRow := .nil _
  pairs := rfl
  mem_iff i position d b hi := by
    rw [List.append_nil, Sheet.at?_eq_none_of_le before hi]
    exact iff_of_false List.not_mem_nil fun h => nomatch h.1

/-- What a row declares is what its first node declares and what the rest does. -/
theorem FlatRow.cons {underRule : Bool} {before ns : List Node} {n : Node}
    {own ds : List Declared} (hown : FlatNode underRule n own)
    (hrest : FlatRow underRule (before ++ [n]) ns ds) :
    FlatRow underRule before (n :: ns) (own.map (Declared.under before.length) ++ ds) := by
  have hlength : (before ++ [n]).length = before.length + 1 := List.length_append
  have hrow : InRow (before.length + 1) (ds.map (·.position)) := hlength ▸ hrest.inRow
  have hpositions : (own.map (Declared.under before.length)).map (·.position) =
      (own.map (·.position)).map (before.length :: ·) := by
    rw [List.map_map, List.map_map]
    rfl
  constructor
  case inRow =>
    rw [List.map_append, hpositions]
    exact .cons hown.inOrder hrow
  case pairs =>
    rw [List.map_append, List.map_map, hrest.pairs, allDeclarations, ← hown.pairs]
    rfl
  case mem_iff =>
    intro i position d b hi
    rw [List.mem_append]
    -- the index tells the first node from the rest
    rcases Nat.eq_or_lt_of_le hi with rfl | hi
    · have hrest : ⟨before.length :: position, d, b⟩ ∉ ds := by
        intro hmem
        obtain ⟨i, position', heq, hi⟩ := hrow.exists_eq _ (List.mem_map_of_mem hmem)
        rw [(List.cons.inj heq).1] at hi
        exact Nat.lt_irrefl _ hi
      have hfirst : ⟨before.length :: position, d, b⟩ ∈ own.map (Declared.under before.length) ↔
          ⟨position, d, b⟩ ∈ own := by
        rw [List.mem_map]
        constructor
        · rintro ⟨⟨position', d', b'⟩, hmem, heq⟩
          obtain ⟨hposition, rfl, rfl⟩ := Declared.mk.inj heq
          rwa [← (List.cons.inj hposition).2]
        · exact fun hmem => ⟨_, hmem, rfl⟩
      rw [or_iff_left hrest, hfirst, hown.mem_iff, Sheet.at?_append_cons,
        Sheet.ruleAround_append_cons]
    · have hfirst : ⟨i :: position, d, b⟩ ∉ own.map (Declared.under before.length) := by
        rw [List.mem_map]
        rintro ⟨x, -, heq⟩
        have hindex := (List.cons.inj (Declared.mk.inj heq).1).1
        exact Nat.ne_of_lt hi hindex
      rw [or_iff_right hfirst, hrest.mem_iff i position d b (hlength ▸ hi), ← List.append_cons]

/-- Of every row the declarations have their positions. -/
theorem exists_flatRow (underRule : Bool) (before ns : List Node) :
    ∃ ds, FlatRow underRule before ns ds := by
  induction ns using rowInduction generalizing underRule before with
  | nil => exact ⟨[], .nil underRule before⟩
  | rule selector children ns ihc ih =>
    obtain ⟨inner, hinner⟩ := ihc true []
    obtain ⟨ds, hds⟩ := ih underRule (before ++ [rule selector children])
    have hrule : (rule selector children).IsRule := ⟨selector, children, rfl⟩
    exact ⟨_, .cons (.within nofun (iff_of_true rfl (.inr hrule)) rfl hinner) hds⟩
  | block name prelude children ns ihc ih =>
    obtain ⟨inner, hinner⟩ := ihc underRule []
    obtain ⟨ds, hds⟩ := ih underRule (before ++ [atRule name prelude (some children)])
    exact ⟨_, .cons (.within nofun (or_iff_left nofun).symm rfl hinner) hds⟩
  | declaration d ns ih =>
    obtain ⟨ds, hds⟩ := ih underRule (before ++ [declaration d])
    exact ⟨_, .cons (.declaration underRule d) hds⟩
  | statement name prelude ns ih =>
    obtain ⟨ds, hds⟩ := ih underRule (before ++ [atRule name prelude none])
    exact ⟨_, .cons (.within nofun (or_iff_left nofun).symm rfl (.nil underRule [])) hds⟩
  | comment text ns ih =>
    obtain ⟨ds, hds⟩ := ih underRule (before ++ [comment text])
    exact ⟨_, .cons (.within nofun (or_iff_left nofun).symm rfl (.nil underRule [])) hds⟩
  | raw text ns ih =>
    obtain ⟨ds, hds⟩ := ih underRule (before ++ [raw text])
    exact ⟨_, .cons (.within nofun (or_iff_left nofun).symm rfl (.nil underRule [])) hds⟩

end Node

/-- The declarations that are listed for a sheet are those of its row. -/
theorem Sheet.exists_flattened (sheet : Sheet) :
    ∃ ds, sheet.Flattened ds ∧ ds.map (·.pair) = sheet.declarations := by
  obtain ⟨ds, hds⟩ := Node.exists_flatRow false [] sheet
  refine ⟨ds, ⟨hds.inRow.inOrder, ?_⟩, hds.pairs⟩
  rintro ⟨position, d, b⟩
  cases position with
  | nil =>
    have hmem : ⟨[], d, b⟩ ∉ ds := fun hmem =>
      hds.inRow.nil_not_mem (List.mem_map_of_mem hmem)
    exact iff_of_false hmem fun h => nomatch h.1
  | cons i position =>
    rw [hds.mem_iff i position d b (Nat.zero_le i), or_iff_right Bool.false_ne_true]
    rfl

end CssPruning
