import CssPruning.Proofs.Sheet.RoundTrip

/-!
# Raw texts merge with what follows them

The writer puts no semicolon behind raw text, and so `p{foo;a:b}` is written as
`p{fooa:b}`, which is a rule with one declaration.

That is so for every arrangement of nodes.  The trees of a text have room for so
many nodes and no more (`Reads.length_allSubnodes_le`), and where a raw text has a
sibling behind it there is room for fewer than were written.  Hence an arrangement
of rules, at-rules, declarations, comments and raw texts is written in a safe way
exactly if every raw text is the last among its siblings
(`rawLast_iff_survives_of_sameKinds`).
-/

set_option autoImplicit false

namespace CssPruning

open Token TokenTree

namespace Sheet

/-! ## Room for nodes -/

mutual

/-- The room in a block. -/
def blockRoom : TokenTree → Nat
  | leaf _ => 0
  | block _ contents _ => room false contents
termination_by structural t => t

/-- The most nodes that some trees can spell, at all depths, where `pending` says
that a statement has begun. -/
def room (pending : Bool) : List TokenTree → Nat
  | [] => if pending then 1 else 0
  | t :: ts =>
    match t with
    | leaf l =>
      if pending then
        if l.token = .semicolon then 1 + room false ts else room true ts
      else if isGap l.token then room false ts
      else
        match l.token with
        | .comment _ => 1 + room false ts
        | _ => room true ts
    | block opener _ _ =>
      if opener.token = .opening .curly then 1 + blockRoom t + room false ts else room true ts
termination_by structural ts => ts

end

theorem room_allMoved (pending : Bool) (k : Nat) (ts : List TokenTree) :
    room pending (allMoved k ts) = room pending ts := by
  induction ts using forestInduction generalizing pending with
  | nil => rfl
  | leaf l ts ih => simp only [allMoved, moved, room, Lexeme.moved, ih]
  | block opener contents closer ts ihc ih =>
    simp only [allMoved, moved, room, blockRoom, Lexeme.moved, ihc, ih]

/-- A token that begins a statement, or goes on with one: neither a gap nor a
comment. -/
def isWording : Token → Bool
  | .comment _ => false
  | t => !isGap t

theorem room_leaf {l : Lexeme} (h : isWording l.token = true) (pending : Bool)
    (ts : List TokenTree) : room pending (leaf l :: ts) = room true ts := by
  revert h
  cases pending with
  | true =>
    intro h
    have hsemicolon : l.token ≠ .semicolon := by
      intro htoken
      rw [htoken] at h
      cases h
    simp only [room, if_true, if_neg hsemicolon]
  | false =>
    simp only [room, isWording, Bool.false_eq_true, if_false]
    split
    · simp [isGap]
    · intro h
      rw [Bool.not_eq_true'] at h
      simp [h]

/-- The trees are the wording of a statement. -/
def AllWording (us : List TokenTree) : Prop := ∀ t ∈ us, ∃ l, t = leaf l ∧ isWording l.token = true

/-- The trees of a statement make no room before it ends. -/
theorem room_append {us : List TokenTree} (hne : us ≠ []) (h : AllWording us) (pending : Bool)
    (ts : List TokenTree) : room pending (us ++ ts) = room true ts := by
  induction us generalizing pending with
  | nil => exact absurd rfl hne
  | cons u us ih =>
    rw [AllWording, List.forall_mem_cons] at h
    obtain ⟨⟨l, rfl, hl⟩, hus⟩ := h
    rw [List.cons_append, room_leaf hl]
    cases us with
    | nil => rfl
    | cons u' us => exact ih (List.cons_ne_nil _ _) hus true

/-- A semicolon makes room for the statement that it ends. -/
theorem room_semicolon (j k : Nat) (ts : List TokenTree) :
    room true (allMoved j [leaf (semicolonAt 0)] ++ allMoved k ts) = 1 + room false ts := by
  simp only [allMoved, moved, List.singleton_append, room, Lexeme.moved, semicolonAt, if_true,
    room_allMoved]

/-- A block makes room for its node and for those inside, with a head and without. -/
theorem room_block {us : List TokenTree} {opener : Lexeme} (hus : AllWording us)
    (hopener : opener.token = .opening .curly) (pending : Bool) (j k : Nat)
    (closer : Option Lexeme) (contents ts : List TokenTree) :
    room pending (us ++ [block opener (allMoved j contents) closer] ++ allMoved k ts) =
      1 + room false contents + room false ts := by
  have hblock : ∀ pending, room pending (block opener (allMoved j contents) closer ::
      allMoved k ts) = 1 + room false contents + room false ts := by
    intro pending
    simp only [room, blockRoom, if_pos hopener, room_allMoved]
  rw [List.append_assoc, List.singleton_append]
  cases us with
  | nil => exact hblock pending
  | cons u us => rw [room_append (List.cons_ne_nil _ _) hus, hblock]

/-- The trees have room for the nodes that they spell. -/
theorem Reads.length_allSubnodes_le {pending : Option Pending} {ts : List TokenTree}
    {ns : List Node} (h : Reads pending ts ns) :
    (Node.allSubnodes ns).length ≤ room pending.isSome ts := by
  have hclose : ∀ {p : Pending} {node : Option Node}, p.close = .ok node →
      (Node.allSubnodes node.toList).length ≤ 1 := by
    intro p node hclose
    rw [(allSubnodes_close hclose).1]
    cases node <;> simp
  induction h with
  | done => exact Nat.le_refl 0
  | finish h => exact hclose h
  | gap hgap _ ih => simpa [room, hgap] using ih
  | comment htoken _ _ ih =>
    simp only [Node.allSubnodes, Node.subnodes, List.singleton_append, List.length_cons]
    simp only [Option.isSome_none] at ih
    simp only [room, htoken, isGap, Option.isSome_none, Bool.false_eq_true, if_false]
    omega
  | atRule htoken _ ih => simpa [room, htoken, isGap] using ih
  | @plain l ts ns hbegins _ ih =>
    have hwording : isWording l.token = true := by
      revert hbegins
      unfold beginsPlain isWording
      cases l.token <;> simp
    rw [Option.isSome_none, room_leaf hwording]
    exact ih
  | stop htoken h _ ih =>
    have := hclose h
    simp only [Node.allSubnodes_append, List.length_append]
    simp only [Option.isSome_none] at ih
    simp only [room, htoken, Option.isSome_some, if_true]
    omega
  | more htoken _ ih => simpa [room, htoken] using ih
  | @block pending opener closer contents ts phrase children ns hopener _ _ _ ihc ih =>
    have hnode : (Node.subnodes (Pending.withBlock (pendingAt pending opener).opening phrase
        children)).length = 1 + (Node.allSubnodes children).length := by
      unfold Pending.withBlock
      split <;> simp [Node.subnodes, Nat.add_comm]
    simp only [Node.allSubnodes, List.length_append, hnode]
    simp only [Option.isSome_none] at ih ihc
    simp only [room, blockRoom, hopener, if_true]
    omega
  | brackets hopener _ ih => simpa [room, hopener] using ih

end Sheet

namespace Node

/-! ## Arrangements of nodes -/

/-- A text for each kind of node, whatever its own is. -/
def asPlain : Rewording :=
  ⟨fun _ => "", fun _ => "a", fun _ => none, fun _ => ⟨"a", [.ident "b"], false⟩, fun _ => "",
    fun _ => ","⟩

/-- The node with texts of their kinds for it and for those inside of it. -/
def plain (n : Node) : Node := reword asPlain n

theorem legible_plain (n : Node) : (plain n).Legible := by
  cases n with
  | rule selector children =>
    change (rule "" _).Legible
    exact ⟨by with_unfolding_all rfl, by with_unfolding_all rfl⟩
  | atRule name prelude b =>
    cases b with
    | none =>
      change (atRule "a" none none).Legible
      exact ⟨by with_unfolding_all rfl, by with_unfolding_all rfl⟩
    | some children =>
      change (atRule "a" none (some _)).Legible
      exact ⟨by with_unfolding_all rfl, by with_unfolding_all rfl⟩
  | declaration d =>
    change (declaration ⟨"a", [.ident "b"], false⟩).Legible
    have hread : Sheet.read ['a', ':', 'b', ';'] = .ok [declaration ⟨"a", [.ident "b"], false⟩] := by
      with_unfolding_all rfl
    exact ⟨by with_unfolding_all rfl, hread⟩
  | comment text =>
    change (comment "").Legible
    simp [Legible]
  | raw text =>
    change (raw ",").Legible
    exact ⟨by with_unfolding_all rfl, by with_unfolding_all rfl⟩

end Node

/-! ## Texts without room -/

/-- The text has no room for the nodes that merge with a raw text before them.  A
statement that has begun before the text is one node, and the first of the text's
own, if there is any. -/
def Tight (cs : List Char) (ns : List Node) : Prop :=
  ∃ ts, Piece Stopped cs ts ∧ ∀ pending, Sheet.room pending ts + Node.allFollowedRaws ns ≤
    max (Node.allSubnodes ns).length (if pending then 1 else 0)

namespace Tight

variable {cs cs' cs'' : List Char} {us : List TokenTree} {n : Node} {ns children : List Node}

theorem nil : Tight [] [] := by
  refine ⟨[], Piece.nil, ?_⟩
  intro pending
  cases pending <;> exact Nat.le_refl _

/-- A statement at the end. -/
theorem last (hpiece : Piece Stopped cs us) (hne : us ≠ []) (hus : Sheet.AllWording us)
    (hn : n.subnodes = [n]) (hfollowed : Node.allFollowedRaws [n] = 0) : Tight cs [n] := by
  refine ⟨us, hpiece, ?_⟩
  intro pending
  rw [← List.append_nil us, Sheet.room_append hne hus, hfollowed, Node.allSubnodes, hn]
  exact Nat.le_max_left 1 _

/-- A statement with its semicolon. -/
theorem statement (hpiece : Piece Stopped cs us) (hne : us ≠ []) (hus : Sheet.AllWording us)
    (hn : n.subnodes = [n]) (hfollowed : n.followedRaws = 0) (hraw : n.isRaw = false)
    (h : Tight cs' ns) : Tight (cs ++ [';'] ++ cs') (n :: ns) := by
  obtain ⟨ts, hts, hroom⟩ := h
  refine ⟨_, (hpiece.append Piece.semicolon fun _ _ => rfl).append hts fun _ _ => trivial, ?_⟩
  intro pending
  have hrest := hroom false
  rw [List.append_assoc, Sheet.room_append hne hus, Sheet.room_semicolon, Node.allSubnodes, hn,
    Node.allFollowedRaws, hfollowed, hraw]
  simp only [Bool.false_and, Bool.false_eq_true, if_false, List.singleton_append,
    List.length_cons] at hrest ⊢
  omega

/-- A head with a block, or a block alone. -/
theorem block (hpiece : Piece Stopped cs us) (hus : Sheet.AllWording us)
    (hn : n.subnodes = n :: Node.allSubnodes children)
    (hfollowed : n.followedRaws = Node.allFollowedRaws children) (hraw : n.isRaw = false)
    (hchildren : Tight cs' children) (h : Tight cs'' ns) :
    Tight (cs ++ '\x7b' :: cs' ++ ['\x7d'] ++ cs'') (n :: ns) := by
  obtain ⟨contents, hcontents, hroomc⟩ := hchildren
  obtain ⟨ts, hts, hroom⟩ := h
  refine ⟨_, (hpiece.curly hcontents).append hts fun _ _ => trivial, ?_⟩
  intro pending
  have hinside := hroomc false
  have hrest := hroom false
  rw [Sheet.room_block hus rfl, Node.allSubnodes, hn, Node.allFollowedRaws, hfollowed, hraw]
  simp only [Bool.false_and, Bool.false_eq_true, if_false, List.cons_append, List.length_cons,
    List.length_append] at hinside hrest ⊢
  omega

/-- A comment, which makes room only if no statement has begun before it. -/
theorem comment (text : String) (h : Tight cs ns) :
    Tight ('/' :: '*' :: [] ++ ['*', '/'] ++ cs) (.comment text :: ns) := by
  obtain ⟨ts, hts, hroom⟩ := h
  refine ⟨_, (Piece.comment (by simp)).append hts fun _ _ => trivial, ?_⟩
  intro pending
  have hrest := hroom pending
  rw [Node.allSubnodes, Node.allFollowedRaws]
  simp only [Node.subnodes, Node.followedRaws, Node.isRaw, Bool.false_and, Bool.false_eq_true,
    if_false, List.singleton_append, List.length_cons]
  cases pending with
  | false =>
    simp only [Sheet.room, Sheet.isGap, Bool.false_eq_true, if_false, Sheet.room_allMoved] at hrest ⊢
    omega
  | true =>
    simp only [Sheet.room, reduceCtorEq, if_true, if_false, Sheet.room_allMoved] at hrest ⊢
    omega

/-- A raw text, which merges with what follows. -/
theorem raw (text : String) (hpiece : Piece Anything cs us) (hne : us ≠ [])
    (hus : Sheet.AllWording us) (h : Tight cs' ns) : Tight (cs ++ cs') (.raw text :: ns) := by
  obtain ⟨ts, hts, hroom⟩ := h
  refine ⟨_, hpiece.append hts fun _ _ => trivial, ?_⟩
  intro pending
  have hrest := hroom true
  rw [Sheet.room_append hne hus, Sheet.room_allMoved, Node.allSubnodes, Node.allFollowedRaws]
  simp only [Node.subnodes, Node.followedRaws, Node.isRaw, if_true, List.singleton_append,
    List.length_cons] at hrest ⊢
  cases ns with
  | nil =>
    simp only [Node.allSubnodes, List.length_nil] at hrest ⊢
    simp only [List.isEmpty_nil, Bool.not_true, Bool.and_false, Bool.false_eq_true, if_false]
    omega
  | cons m ms =>
    have hpos : 0 < (Node.allSubnodes (m :: ms)).length := Node.length_allSubnodes_pos m ms
    simp only [List.isEmpty_cons, Bool.not_false, Bool.and_self, if_true]
    omega

end Tight

namespace Node

/-! ## The text of plain nodes -/

/-- The trees of the plain at-rules' name. -/
def atRuleTrees : List TokenTree := [leaf ⟨.atKeyword "a", ['@', 'a'], 0⟩]

/-- The trees of the plain declaration. -/
def declarationTrees : List TokenTree :=
  [leaf ⟨.ident "a", ['a'], 0⟩, leaf ⟨.colon, [':'], 1⟩, leaf ⟨.ident "b", ['b'], 2⟩]

/-- The tree of the plain raw text. -/
def rawTrees : List TokenTree := [leaf ⟨.comma, [','], 0⟩]

theorem piece_atRule : Piece Stopped ['@', 'a'] atRuleTrees :=
  Piece.of_forest (by with_unfolding_all rfl) (by simp [isStray, atRuleTrees])

theorem piece_declaration : Piece Stopped ['a', ':', 'b'] declarationTrees :=
  Piece.of_forest (by with_unfolding_all rfl) (by simp [isStray, declarationTrees])

/-- A comma is a lexeme whatever follows. -/
theorem piece_raw : Piece Anything [','] rawTrees := by
  constructor
  case whole => exact ⟨rfl, by simp [Closes], trivial⟩
  case tokens =>
    intro start ds _
    have hnext : next ',' ds = ⟨.comma, [','], ds⟩ := mark_of_isLone (c := ',') rfl ds
    rw [List.singleton_append, tokenizeFrom_cons, hnext]
    rfl

theorem allWording_atRuleTrees : Sheet.AllWording atRuleTrees := by
  simp [Sheet.AllWording, atRuleTrees, Sheet.isWording, Sheet.isGap]

theorem allWording_declarationTrees : Sheet.AllWording declarationTrees := by
  simp [Sheet.AllWording, declarationTrees, Sheet.isWording, Sheet.isGap]

theorem allWording_rawTrees : Sheet.AllWording rawTrees := by
  simp [Sheet.AllWording, rawTrees, Sheet.isWording, Sheet.isGap]

theorem tight_plain (ns : List Node) : Tight (allChars (allReword asPlain ns)) ns := by
  induction ns using rowInduction with
  | nil => exact Tight.nil
  | rule selector children ns ihc ih =>
    have htext : allChars (allReword asPlain (rule selector children :: ns)) =
        [] ++ '\x7b' :: allChars (allReword asPlain children) ++ ['\x7d'] ++
          allChars (allReword asPlain ns) := by
      simp [allReword, reword, asPlain, allChars, chars, isDeclaration]
    rw [htext]
    exact Tight.block Piece.nil (List.forall_mem_nil _) rfl rfl rfl ihc ih
  | statement name prelude ns ih =>
    have htext : allChars (allReword asPlain (atRule name prelude none :: ns)) =
        ['@', 'a'] ++ [';'] ++ allChars (allReword asPlain ns) := by
      simp [allReword, reword, asPlain, allChars, chars, isDeclaration, AtRule.headChars,
        AtRule.preludeText]
    rw [htext]
    exact Tight.statement piece_atRule (List.cons_ne_nil _ _) allWording_atRuleTrees rfl rfl rfl ih
  | block name prelude children ns ihc ih =>
    have htext : allChars (allReword asPlain (atRule name prelude (some children) :: ns)) =
        ['@', 'a'] ++ '\x7b' :: allChars (allReword asPlain children) ++ ['\x7d'] ++
          allChars (allReword asPlain ns) := by
      simp [allReword, reword, asPlain, allChars, chars, isDeclaration, AtRule.headChars,
        AtRule.preludeText]
    rw [htext]
    exact Tight.block piece_atRule allWording_atRuleTrees rfl rfl rfl ihc ih
  | declaration d ns ih =>
    have hdeclaration : Declaration.chars ⟨"a", [.ident "b"], false⟩ = ['a', ':', 'b'] := by rfl
    cases ns with
    | nil =>
      have htext : allChars (allReword asPlain [declaration d]) = ['a', ':', 'b'] := by
        simp [allReword, reword, asPlain, allChars, chars, hdeclaration]
      rw [htext]
      exact Tight.last piece_declaration (List.cons_ne_nil _ _) allWording_declarationTrees rfl rfl
    | cons n ns =>
      have htext : allChars (allReword asPlain (declaration d :: n :: ns)) =
          ['a', ':', 'b'] ++ [';'] ++ allChars (allReword asPlain (n :: ns)) := by
        simp [allReword, reword, asPlain, allChars, chars, hdeclaration, isDeclaration]
      rw [htext]
      exact Tight.statement piece_declaration (List.cons_ne_nil _ _) allWording_declarationTrees
        rfl rfl rfl ih
  | comment text ns ih =>
    have htext : allChars (allReword asPlain (comment text :: ns)) =
        '/' :: '*' :: [] ++ ['*', '/'] ++ allChars (allReword asPlain ns) := by
      simp [allReword, reword, asPlain, allChars, chars, isDeclaration]
    rw [htext]
    exact Tight.comment text ih
  | raw text ns ih =>
    have htext : allChars (allReword asPlain (raw text :: ns)) =
        [','] ++ allChars (allReword asPlain ns) := by
      simp [allReword, reword, asPlain, allChars, chars, isDeclaration]
    rw [htext]
    exact Tight.raw text piece_raw (List.cons_ne_nil _ _) allWording_rawTrees ih

end Node

namespace Sheet

/-! ## Safe arrangements -/

/-- The sheet with texts of their kinds in place of its nodes' own. -/
def plain (s : Sheet) : Sheet := Node.allReword Node.asPlain s

/-- Nodes of the same kinds in the same order and nesting. -/
def SameKinds (s s' : Sheet) : Prop := plain s = plain s'

/-- Every node of a plain sheet is legible. -/
theorem legible_of_mem_allSubnodes_plain {s : Sheet} {n : Node}
    (hn : n ∈ Node.allSubnodes (plain s)) : n.Legible := by
  rw [plain, Node.allSubnodes_allReword, List.mem_map] at hn
  obtain ⟨m, -, rfl⟩ := hn
  exact Node.legible_plain m

theorem canonical_plain (s : Sheet) : canonical (plain s) = plain s := by
  rw [canonical, plain, Node.allReword_allReword]
  rfl

/-- Every plain sheet can be read. -/
theorem parse_allSeparated_plain (s : Sheet) :
    parse (String.ofList (Node.allSeparated (plain s))) = .ok (plain s) := by
  have hspells : Spells (Node.allSeparated (plain s)) (canonical (plain s)) :=
    Node.spells_separated fun _ => legible_of_mem_allSubnodes_plain
  rw [canonical_plain] at hspells
  rw [parse_eq_ok_iff, String.toList_ofList]
  exact hspells.read_eq

/-- A plain sheet with a raw text in front of a sibling does not survive: from its
text fewer nodes are read than there are. -/
theorem not_survives_plain {s : Sheet} (h : ¬ RawLast s) : ¬ Survives (plain s) := by
  rintro ⟨s', hread, hcanonical⟩
  rw [parse_eq_ok_iff, write, String.toList_ofList, read] at hread
  obtain ⟨ts, hpiece, hroom⟩ := Node.tight_plain s
  rw [plain, hpiece.forest_eq rfl, readTrees_eq_ok_iff] at hread
  have hle : (Node.allSubnodes s').length ≤ room false ts := hread.length_allSubnodes_le
  have hsize : (Node.allSubnodes s').length = (Node.allSubnodes s).length := by
    have := congrArg (fun s => (Node.allSubnodes s).length) hcanonical
    simpa [canonical, plain, Node.allSubnodes_allReword] using this
  have hlost := hroom false
  have hfollowed : Node.allFollowedRaws s ≠ 0 := h
  simp only [Bool.false_eq_true, if_false] at hlost
  omega

/-- An arrangement of nodes is written in a way that every legible sheet of that
arrangement survives exactly if every raw text is the last among its siblings. -/
theorem rawLast_iff_survives_of_sameKinds (s : Sheet) :
    RawLast s ↔ ∀ text s', parse text = .ok s' → SameKinds s' s → Legible s' → Survives s' := by
  constructor
  · intro h text s' hparse hkinds hlegible
    have hraw : RawLast s' := by
      have := congrArg Node.allFollowedRaws hkinds
      rw [plain, plain, Node.allFollowedRaws_allReword, Node.allFollowedRaws_allReword] at this
      exact this.trans h
    exact survives_of_rawLast hparse hlegible hraw
  · intro h
    apply Classical.byContradiction
    intro hraw
    have hkinds : SameKinds (plain s) s := Node.allReword_allReword Node.asPlain Node.asPlain s
    exact not_survives_plain hraw
      (h _ _ (parse_allSeparated_plain s) hkinds fun _ hn _ => legible_of_mem_allSubnodes_plain hn)

/-- The sheet of `@media print{p{a: b;foo}/**/}`. -/
def rawBehindDeclaration : Sheet :=
  [.atRule "media" (some "print") (some
    [.rule "p" [.declaration ⟨"a", [.ident "b"], false⟩, .raw "foo"], .comment ""])]

theorem survives_rawBehindDeclaration :
    read ['@', 'm', 'e', 'd', 'i', 'a', ' ', 'p', 'r', 'i', 'n', 't', '\x7b', 'p', '\x7b', 'a', ':',
        ' ', 'b', ';', 'f', 'o', 'o', '\x7d', '/', '*', '*', '/', '\x7d'] =
      .ok rawBehindDeclaration ∧ Survives rawBehindDeclaration := by
  have hread : read ['@', 'm', 'e', 'd', 'i', 'a', ' ', 'p', 'r', 'i', 'n', 't', '\x7b', 'p', '\x7b',
      'a', ':', ' ', 'b', ';', 'f', 'o', 'o', '\x7d', '/', '*', '*', '/', '\x7d'] =
      .ok rawBehindDeclaration := by
    with_unfolding_all rfl
  have hlegible : Legible rawBehindDeclaration := by
    intro n hn hcomment
    simp only [rawBehindDeclaration, Node.allSubnodes, Node.subnodes, List.cons_append,
      List.nil_append, List.append_nil, List.mem_cons, List.not_mem_nil, or_false] at hn
    rcases hn with rfl | rfl | rfl | rfl | rfl
    · exact ⟨by with_unfolding_all rfl, by with_unfolding_all rfl⟩
    · exact ⟨by with_unfolding_all rfl, by with_unfolding_all rfl⟩
    · exact ⟨by with_unfolding_all rfl, by with_unfolding_all rfl⟩
    · exact ⟨by with_unfolding_all rfl, by with_unfolding_all rfl⟩
    · cases hcomment
  have hparse : parse (String.ofList _) = .ok rawBehindDeclaration :=
    parse_eq_ok_iff.2 (by rw [String.toList_ofList]; exact hread)
  refine ⟨hread, ?_⟩
  exact (rawLast_iff_survives_of_sameKinds rawBehindDeclaration).1 rfl _ _ hparse rfl hlegible

/-- The sheet of `p{foo;a:b}`. -/
def rawBeforeDeclaration : Sheet :=
  [.rule "p" [.raw "foo", .declaration ⟨"a", [.ident "b"], false⟩]]

/-- A raw text and the declaration behind it are read as one declaration, although
the declaration's value is read as it was. -/
theorem not_survives_rawBeforeDeclaration :
    read ['p', '\x7b', 'f', 'o', 'o', ';', 'a', ':', 'b', '\x7d'] = .ok rawBeforeDeclaration ∧
      Value.read (Value.chars [.ident "b"]) = .ok [.ident "b"] ∧
      parse rawBeforeDeclaration.write =
        .ok [.rule "p" [.declaration ⟨"fooa", [.ident "b"], false⟩]] ∧
      ¬ Survives rawBeforeDeclaration := by
  have hwrite : Node.allChars rawBeforeDeclaration =
      ['p', '\x7b', 'f', 'o', 'o', 'a', ':', 'b', '\x7d'] := by rfl
  have hread : parse rawBeforeDeclaration.write =
      .ok [.rule "p" [.declaration ⟨"fooa", [.ident "b"], false⟩]] := by
    rw [parse_eq_ok_iff, write, String.toList_ofList, hwrite]
    with_unfolding_all rfl
  refine ⟨by with_unfolding_all rfl, by with_unfolding_all rfl, hread, ?_⟩
  rintro ⟨s', hs', hcanonical⟩
  cases hread.symm.trans hs'
  simp [canonical, rawBeforeDeclaration, Node.allReword, Node.reword] at hcanonical

end Sheet

end CssPruning
