import CssPruning.Proofs.Sheet.Comments
import CssPruning.Proofs.Sheet.Spelling
import CssPruning.Proofs.Text.Collapse
import CssPruning.Sheet.Writer

/-!
# Reading what was written

A node is legible if its own text, without what is in its block, is read as that
node.  A sheet of legible nodes is read as itself from its text, up to the way in
which preludes are written, if only a semicolon stood behind raw texts as it does
behind declarations (`spells_separated`).

The writer leaves that semicolon out.  So a legible sheet survives if every raw
text is the last among its siblings (`survives_of_rawLast`).
-/

set_option autoImplicit false

namespace CssPruning

namespace Node

/-! ## Nodes with other texts -/

/-- New texts for the nodes of a sheet, each made from the old one. -/
structure Rewording where
  selector : String → String
  name : String → String
  prelude : Option String → Option String
  declaration : Declaration → Declaration
  comment : String → String
  raw : String → String

/-- One rewording after another. -/
def Rewording.after (f g : Rewording) : Rewording :=
  ⟨f.selector ∘ g.selector, f.name ∘ g.name, f.prelude ∘ g.prelude, f.declaration ∘ g.declaration,
    f.comment ∘ g.comment, f.raw ∘ g.raw⟩

mutual

/-- The node with new texts for it and for those inside of it. -/
def reword (f : Rewording) : Node → Node
  | rule selector children => rule (f.selector selector) (allReword f children)
  | atRule name prelude none => atRule (f.name name) (f.prelude prelude) none
  | atRule name prelude (some children) =>
    atRule (f.name name) (f.prelude prelude) (some (allReword f children))
  | declaration d => declaration (f.declaration d)
  | comment text => comment (f.comment text)
  | raw text => raw (f.raw text)
termination_by structural n => n

/-- Some nodes in a row with new texts. -/
def allReword (f : Rewording) : List Node → List Node
  | [] => []
  | n :: ns => reword f n :: allReword f ns
termination_by structural ns => ns

end

theorem allReword_allReword (f g : Rewording) (ns : List Node) :
    allReword f (allReword g ns) = allReword (f.after g) ns := by
  induction ns using rowInduction with
  | nil => rfl
  | rule selector children ns ihc ih => simp [allReword, reword, Rewording.after, ihc, ih]
  | statement name prelude ns ih => simp [allReword, reword, Rewording.after, ih]
  | block name prelude children ns ihc ih => simp [allReword, reword, Rewording.after, ihc, ih]
  | declaration d ns ih => simp [allReword, reword, Rewording.after, ih]
  | comment text ns ih => simp [allReword, reword, Rewording.after, ih]
  | raw text ns ih => simp [allReword, reword, Rewording.after, ih]

theorem allSubnodes_allReword (f : Rewording) (ns : List Node) :
    allSubnodes (allReword f ns) = (allSubnodes ns).map (reword f) := by
  induction ns using rowInduction with
  | nil => rfl
  | rule selector children ns ihc ih => simp [allReword, reword, allSubnodes, subnodes, ihc, ih]
  | statement name prelude ns ih => simp [allReword, reword, allSubnodes, subnodes, ih]
  | block name prelude children ns ihc ih =>
    simp [allReword, reword, allSubnodes, subnodes, ihc, ih]
  | declaration d ns ih => simp [allReword, reword, allSubnodes, subnodes, ih]
  | comment text ns ih => simp [allReword, reword, allSubnodes, subnodes, ih]
  | raw text ns ih => simp [allReword, reword, allSubnodes, subnodes, ih]

/-! ## Nodes as they are written -/

/-- Preludes as they are written, and all else as it stands. -/
def asWritten : Rewording := ⟨id, id, Option.map AtRule.canonicalPrelude, id, id, id⟩

/-- The node with preludes as they are written. -/
def canonical (n : Node) : Node := reword asWritten n

theorem asWritten_after_asWritten : asWritten.after asWritten = asWritten := by
  have htwice : ∀ prelude, AtRule.canonicalPrelude (AtRule.canonicalPrelude prelude) =
      AtRule.canonicalPrelude prelude := by
    intro prelude
    rw [AtRule.canonicalPrelude, AtRule.canonicalPrelude, String.toList_ofList,
      Text.collapse_collapse]
  have hprelude : Option.map AtRule.canonicalPrelude ∘ Option.map AtRule.canonicalPrelude =
      Option.map AtRule.canonicalPrelude := by
    funext prelude
    cases prelude with
    | none => rfl
    | some prelude => exact congrArg some (htwice prelude)
  rw [Rewording.after, asWritten, hprelude]
  rfl

/-! ## Legible nodes -/

/-- The node without what is in its block. -/
def emptied : Node → Node
  | rule selector _ => rule selector []
  | atRule name prelude block => atRule name prelude (block.map fun _ => [])
  | n => n

/-- The text of a node up to its block, or to the semicolon that ends it. -/
def leadChars : Node → List Char
  | rule selector _ => Text.trim selector.toList
  | atRule name prelude _ => (AtRule.mk name prelude none).headChars
  | n => chars n

/-- What ends the text of the node without what is in its block. -/
def endChars : Node → List Char
  | rule _ _ | atRule _ _ (some _) => ['\x7b', '\x7d']
  | _ => [';']

/-- The node's own text is closed, and is read as the node.  Of a comment only its
closing mark can be misplaced. -/
def Legible : Node → Prop
  | comment text => ¬ ['*', '/'] <:+: text.toList
  | n => isClosed n.leadChars = true ∧
    Sheet.read (n.leadChars ++ n.endChars) = .ok [n.emptied.canonical]

/-! ## Raw texts and their siblings -/

/-- The node is raw text. -/
def isRaw : Node → Bool
  | raw _ => true
  | _ => false

mutual

/-- The number of raw texts inside of the node that have a sibling behind them. -/
def followedRaws : Node → Nat
  | rule _ children => allFollowedRaws children
  | atRule _ _ none => 0
  | atRule _ _ (some children) => allFollowedRaws children
  | declaration _ | comment _ | raw _ => 0
termination_by structural n => n

/-- The number of raw texts in a row, and inside of its nodes, that have a sibling
behind them. -/
def allFollowedRaws : List Node → Nat
  | [] => 0
  | n :: ns =>
    followedRaws n + (if n.isRaw && !ns.isEmpty then 1 else 0) + allFollowedRaws ns
termination_by structural ns => ns

end

mutual

/-- The text of a node, with a semicolon behind each raw text inside of it that
other nodes follow. -/
def separated : Node → List Char
  | rule selector children =>
    Text.trim selector.toList ++ '\x7b' :: allSeparated children ++ ['\x7d']
  | atRule name prelude none => (AtRule.mk name prelude none).headChars ++ [';']
  | atRule name prelude (some children) =>
    (AtRule.mk name prelude none).headChars ++ '\x7b' :: allSeparated children ++ ['\x7d']
  | declaration d => d.chars
  | comment text => "/*".toList ++ text.toList ++ "*/".toList
  | raw text => text.toList
termination_by structural n => n

/-- The text of some nodes in a row, with a semicolon behind each declaration and
each raw text that other nodes follow. -/
def allSeparated : List Node → List Char
  | [] => []
  | n :: ns =>
    separated n ++ (if (n.isDeclaration || n.isRaw) && !ns.isEmpty then [';'] else []) ++
      allSeparated ns
termination_by structural ns => ns

end

/-- What a raw text says does not matter for where it stands. -/
theorem allFollowedRaws_allReword (f : Rewording) (ns : List Node) :
    allFollowedRaws (allReword f ns) = allFollowedRaws ns := by
  have hempty : ∀ ns, (allReword f ns).isEmpty = ns.isEmpty := by
    intro ns
    cases ns <;> rfl
  induction ns using rowInduction with
  | nil => rfl
  | rule selector children ns ihc ih =>
    simp [allReword, reword, allFollowedRaws, followedRaws, isRaw, ihc, ih]
  | statement name prelude ns ih =>
    simp [allReword, reword, allFollowedRaws, followedRaws, isRaw, ih]
  | block name prelude children ns ihc ih =>
    simp [allReword, reword, allFollowedRaws, followedRaws, isRaw, ihc, ih]
  | declaration d ns ih => simp [allReword, reword, allFollowedRaws, followedRaws, isRaw, ih]
  | comment text ns ih => simp [allReword, reword, allFollowedRaws, followedRaws, isRaw, ih]
  | raw text ns ih => simp [allReword, reword, allFollowedRaws, followedRaws, isRaw, ih, hempty]

/-- Without a raw text in front of a sibling the writer misses no semicolon. -/
theorem allSeparated_eq_allChars {ns : List Node} (h : allFollowedRaws ns = 0) :
    allSeparated ns = allChars ns := by
  induction ns using rowInduction with
  | nil => rfl
  | rule selector children ns ihc ih =>
    simp only [allFollowedRaws, followedRaws, Nat.add_eq_zero_iff] at h
    simp [allSeparated, separated, allChars, chars, isDeclaration, isRaw, ihc h.1.1, ih h.2]
  | statement name prelude ns ih =>
    simp only [allFollowedRaws, Nat.add_eq_zero_iff] at h
    simp [allSeparated, separated, allChars, chars, isDeclaration, isRaw, ih h.2]
  | block name prelude children ns ihc ih =>
    simp only [allFollowedRaws, followedRaws, Nat.add_eq_zero_iff] at h
    simp [allSeparated, separated, allChars, chars, isDeclaration, isRaw, ihc h.1.1, ih h.2]
  | declaration d ns ih =>
    simp only [allFollowedRaws, Nat.add_eq_zero_iff] at h
    simp [allSeparated, separated, allChars, chars, isDeclaration, isRaw, ih h.2]
  | comment text ns ih =>
    simp only [allFollowedRaws, Nat.add_eq_zero_iff] at h
    simp [allSeparated, separated, allChars, chars, isDeclaration, isRaw, ih h.2]
  | raw text ns ih =>
    have hlast : ns = [] := by
      cases ns with
      | nil => rfl
      | cons m ms => simp [allFollowedRaws, isRaw] at h
    simp [allSeparated, separated, allChars, chars, isDeclaration, isRaw, hlast]

/-! ## The text with all its semicolons -/

/-- Legible nodes are spelled by their text with all its semicolons. -/
theorem spells_separated {ns : List Node} (h : ∀ n ∈ allSubnodes ns, n.Legible) :
    Spells (allSeparated ns) (allReword asWritten ns) := by
  induction ns using rowInduction with
  | nil => exact Spells.nil
  | rule selector children ns ihc ih =>
    simp only [allSubnodes, subnodes, List.cons_append, List.forall_mem_cons,
      List.forall_mem_append] at h
    obtain ⟨⟨hclosed, hread⟩, hchildren, hns⟩ := h
    have htext : allSeparated (rule selector children :: ns) =
        Text.trim selector.toList ++ '\x7b' :: allSeparated children ++ ['\x7d'] ++
          allSeparated ns := by
      simp [allSeparated, separated, isDeclaration, isRaw]
    rw [htext]
    exact Spells.block hclosed hread (ihc hchildren) (ih hns)
  | statement name prelude ns ih =>
    simp only [allSubnodes, subnodes, List.cons_append, List.forall_mem_cons,
      List.nil_append] at h
    obtain ⟨⟨hclosed, hread⟩, hns⟩ := h
    have htext : allSeparated (atRule name prelude none :: ns) =
        (AtRule.mk name prelude none).headChars ++ [';'] ++ allSeparated ns := by
      simp [allSeparated, separated, isDeclaration, isRaw]
    rw [htext]
    exact Spells.statement hclosed hread (ih hns)
  | block name prelude children ns ihc ih =>
    simp only [allSubnodes, subnodes, List.cons_append, List.forall_mem_cons,
      List.forall_mem_append] at h
    obtain ⟨⟨hclosed, hread⟩, hchildren, hns⟩ := h
    have htext : allSeparated (atRule name prelude (some children) :: ns) =
        (AtRule.mk name prelude none).headChars ++ '\x7b' :: allSeparated children ++ ['\x7d'] ++
          allSeparated ns := by
      simp [allSeparated, separated, isDeclaration, isRaw]
    rw [htext]
    exact Spells.block hclosed hread (ihc hchildren) (ih hns)
  | declaration d ns ih =>
    simp only [allSubnodes, subnodes, List.cons_append, List.forall_mem_cons,
      List.nil_append] at h
    obtain ⟨⟨hclosed, hread⟩, hns⟩ := h
    refine Spells.statement_or_last hclosed hread (ih hns) ?_
    intro hlast
    rw [List.isEmpty_iff.1 hlast]
    exact ⟨rfl, rfl⟩
  | comment text ns ih =>
    simp only [allSubnodes, subnodes, List.cons_append, List.forall_mem_cons,
      List.nil_append] at h
    have hspells := Spells.comment h.1 (ih h.2)
    rw [String.ofList_toList] at hspells
    have htext : allSeparated (comment text :: ns) =
        '/' :: '*' :: text.toList ++ ['*', '/'] ++ allSeparated ns := by
      simp [allSeparated, separated, isDeclaration, isRaw]
    rw [htext]
    exact hspells
  | raw text ns ih =>
    simp only [allSubnodes, subnodes, List.cons_append, List.forall_mem_cons,
      List.nil_append] at h
    obtain ⟨⟨hclosed, hread⟩, hns⟩ := h
    refine Spells.statement_or_last hclosed hread (ih hns) ?_
    intro hlast
    rw [List.isEmpty_iff.1 hlast]
    exact ⟨rfl, rfl⟩

end Node

namespace Sheet

/-! ## Sheets -/

/-- The sheet with preludes as they are written. -/
def canonical (s : Sheet) : Sheet := Node.allReword Node.asWritten s

/-- Every raw text of the sheet is the last among its siblings. -/
def RawLast (s : Sheet) : Prop := Node.allFollowedRaws s = 0

/-- Every node of the sheet that is no comment is legible. -/
def Legible (s : Sheet) : Prop := ∀ n ∈ Node.allSubnodes s, n.isComment = false → n.Legible

/-- The text of the sheet is read as the same nodes, up to the way in which
preludes are written. -/
def Survives (s : Sheet) : Prop := ∃ s', parse s.write = .ok s' ∧ canonical s' = canonical s

theorem canonical_canonical (s : Sheet) : canonical (canonical s) = canonical s := by
  rw [canonical, canonical, Node.allReword_allReword, Node.asWritten_after_asWritten]

theorem parse_eq_ok_iff {text : String} {s : Sheet} :
    parse text = .ok s ↔ read text.toList = .ok s := by
  rw [parse]
  cases read text.toList with
  | error f => constructor <;> intro h <;> cases h
  | ok s' => exact ⟨fun h => by cases h; rfl, fun h => by cases h; rfl⟩

/-- A text that is read is read as some nodes. -/
theorem exists_parse_eq_ok {text : String} (h : (parse text).isOk = true) :
    ∃ s, parse text = .ok s :=
  exists_eq_ok h

/-- In a legible sheet that was read the comments are legible, too. -/
theorem legible_of_mem_allSubnodes {text : String} {s : Sheet} {n : Node}
    (h : parse text = .ok s) (hs : Legible s) (hn : n ∈ Node.allSubnodes s) : n.Legible := by
  cases n with
  | comment c => exact no_closing_mark_of_read (parse_eq_ok_iff.1 h) hn
  | rule => exact hs _ hn rfl
  | atRule => exact hs _ hn rfl
  | declaration => exact hs _ hn rfl
  | raw => exact hs _ hn rfl

/-- A legible sheet whose raw texts are the last among their siblings is read as
it is written. -/
theorem parse_write_of_rawLast {text : String} {s : Sheet} (h : parse text = .ok s)
    (hs : Legible s) (hraw : RawLast s) : parse s.write = .ok (canonical s) := by
  have hspells : Spells (Node.allSeparated s) (canonical s) :=
    Node.spells_separated fun n hn => legible_of_mem_allSubnodes h hs hn
  rw [Node.allSeparated_eq_allChars hraw] at hspells
  rw [parse_eq_ok_iff, write, String.toList_ofList]
  exact hspells.read_eq

theorem survives_of_rawLast {text : String} {s : Sheet} (h : parse text = .ok s)
    (hs : Legible s) (hraw : RawLast s) : Survives s :=
  ⟨canonical s, parse_write_of_rawLast h hs hraw, canonical_canonical s⟩

end Sheet

end CssPruning
