import CssPruning.Proofs.Sheet.Reading
import CssPruning.Proofs.Token.Cursor

/-!
# The loops that read a sheet

Nodes are read one by one from a cursor.  A turn takes the lexeme there; an at-rule is
scanned from the cursor behind its name, and any other statement from the cursor in
front of the lexeme, which is then taken a second time.  That the turn goes on from a
cursor ahead all the same is a fact about scanning: a scan that begins at a lexeme passes
that lexeme (`Cursor.passes_of_scan`).

The nodes of a block are read by the same loop, and what it leaves of the block is looked
at (`Cursor.nested`).

What these loops find is what the trees that they pass spell (`Cursor.Level.nodes_eq`).
They return where their block or the text ends (`Cursor.next_eq_none_of_nodes`), so that
nothing is left of a block (`Cursor.nested_nodes`).
-/

set_option autoImplicit false

namespace CssPruning

open Sheet TokenTree

namespace Sheet

/-- What a scan ended at. -/
inductive Terminator where
  | semicolon
  /-- a curly block, whose bracket is passed and starts at a place -/
  | block (start : Nat)
  /-- the text, or the block around, ends -/
  | ended
  deriving DecidableEq, Repr

end Sheet

/-- What a lexeme that opens nothing puts in front of a phrase. -/
def Phrase.putLeaf (l : Lexeme) : Except Fault (Phrase → Phrase) :=
  match l.token with
  | .closing .curly => .ok id
  | .comment _ => if l.commentCloses then .ok id else .error ⟨.unclosedComment, l.start⟩
  | .badString => .error ⟨.unclosedString, l.start⟩
  | .string _ =>
    if l.stringCloses then .ok (behind l.source) else .error ⟨.unclosedString, l.start⟩
  | .colon => .ok behindColon
  | _ => .ok (behind l.source)

theorem Phrase.ofTrees_cons_leaf (l : Lexeme) (ts : List TokenTree) :
    ofTrees (leaf l :: ts) = (do
      let put ← putLeaf l
      put <$> ofTrees ts) := by
  have hid : ofTrees ts = id <$> ofTrees ts := (id_map (ofTrees ts)).symm
  fun_cases putLeaf l with
  | case1 htoken => simp only [ofTrees, htoken]; exact hid
  | case2 text htoken hcloses => simp only [ofTrees, htoken, if_pos hcloses]; exact hid
  | case3 text htoken hcloses => simp only [ofTrees, htoken, if_neg hcloses]; rfl
  | case4 htoken => simp only [ofTrees, htoken]; rfl
  | case5 text htoken hcloses => simp only [ofTrees, htoken, if_pos hcloses]; rfl
  | case6 text htoken hcloses => simp only [ofTrees, htoken, if_neg hcloses]; rfl
  | case7 htoken => simp only [ofTrees, htoken]; rfl
  | case8 hcurly hcomment hbad hstring hcolon =>
    exact ofTrees_leaf hcurly hcomment hbad hstring hcolon ts

/-- The node of a statement without a block, from the statement's text. -/
def Pending.finish (opening : Opening) (phrase : Phrase) : Except Fault (Option Node) :=
  match opening with
  | .atRule name => .ok (some (.atRule name (prelude phrase) none))
  | .plain start =>
    let text := Text.trim phrase.text
    if text.isEmpty then .ok none
    else
      match phrase.tail with
      | some value =>
        if (Text.trim phrase.head).isEmpty then .ok (some (.raw (String.ofList text)))
        else (fun d => some (.declaration d)) <$> Declaration.read phrase.head value start
      | none => .ok (some (.raw (String.ofList text)))

theorem Pending.close_eq (p : Pending) :
    p.close = Phrase.ofTrees p.trees.reverse >>= finish p.opening := by
  obtain ⟨opening, trees⟩ := p
  rw [close]
  cases Phrase.ofTrees trees.reverse with
  | error f => rfl
  | ok phrase =>
    cases opening with
    | atRule name => rfl
    | plain start =>
      dsimp only [bind, Except.bind, finish]
      by_cases hempty : (Text.trim phrase.text).isEmpty = true
      · rw [if_pos hempty, if_pos hempty]
        rfl
      · rw [if_neg hempty, if_neg hempty]
        cases phrase.tail with
        | none => rfl
        | some value =>
          dsimp only
          by_cases hhead : (Text.trim phrase.head).isEmpty = true
          · rw [if_pos hhead, if_pos hhead]
            rfl
          · rw [if_neg hhead, if_neg hhead]
            cases Declaration.read phrase.head value start <;> rfl

namespace Cursor

variable {c d e f : Cursor}

/-! ## Scanning -/

/-- One turn of the loop that scans the text of a statement. -/
def scanTurn (inside : Option Bracket) (c : Cursor) :
    Except Fault (Turn c (Terminator × c.Onward) (Phrase → Phrase)) :=
  match c.next inside with
  | none => .ok (.returns (.ended, c.here))
  | some (l, d) =>
    match l.token with
    | .semicolon => .ok (.returns (.semicolon, d.toOnward))
    | .opening .curly => .ok (.returns (.block l.start, d.toOnward))
    | token =>
      match token.opens with
      | none => (fun put => .goesOn put d) <$> Phrase.putLeaf l
      | some b => do
        let (closed, e) ← skipBlock b d.1
        if !closed then throw ⟨.unclosedParenthesis, l.start⟩
        return .goesOn (Phrase.behind (c.upTo (d.andThen e).toOnward)) (d.andThen e)

/-- The text of a statement from a cursor on, what ends it, and the cursor behind that. -/
def scan (inside : Option Bracket) (c : Cursor) :
    Except Fault ((Phrase × Terminator) × c.Onward) :=
  match scanTurn inside c with
  | .error f => .error f
  | .ok (.returns (t, e)) => .ok ((⟨[], none⟩, t), e)
  | .ok (.goesOn put d) => do
    let ((p, t), e) ← scan inside d.1
    return ((put p, t), d.toOnward.andThen e)
termination_by c.ahead.length
decreasing_by exact d.2.length_lt

/-- A turn that takes a lexeme and returns has passed it. -/
theorem passes_of_scanTurn {inside : Option Bracket} {x : Lexeme × c.Ahead}
    (hnext : c.next inside = some x) {t : Terminator} {e : c.Onward}
    (h : scanTurn inside c = .ok (.returns (t, e))) : c.Passes e.1 := by
  obtain ⟨l, d⟩ := x
  rw [scanTurn, hnext] at h
  dsimp only at h
  split at h
  · cases h
    exact d.2
  · cases h
    exact d.2
  · split at h
    · obtain ⟨put, -, h⟩ := map_eq_ok h
      cases h
    · rw [skipBlock_eq] at h
      dsimp only [bind, Except.bind] at h
      split at h <;> cases h

/-- A scan that begins at a lexeme passes it. -/
theorem passes_of_scan {inside : Option Bracket} {x : Lexeme × c.Ahead}
    (hnext : c.next inside = some x) {r : Phrase × Terminator} {e : c.Onward}
    (h : scan inside c = .ok (r, e)) : c.Passes e.1 := by
  rw [scan] at h
  cases hturn : scanTurn inside c with
  | error f =>
    rw [hturn] at h
    cases h
  | ok turn =>
    rw [hturn] at h
    cases turn with
    | returns result =>
      cases h
      exact passes_of_scanTurn hnext hturn
    | goesOn put d =>
      dsimp only at h
      obtain ⟨⟨⟨p, t⟩, e'⟩, -, h⟩ := bind_eq_ok h
      cases h
      exact d.2.trans_reaches e'.2

/-- What ends a statement: nothing but the end of the level, or the first of some trees. -/
inductive Halt (inside : Option Bracket) (e : Cursor) : List TokenTree → Terminator → Cursor → Prop
  | ended : Halt inside e [] .ended e
  | semicolon {l : Lexeme} {d : Cursor} {ts : List TokenTree} :
      l.token = .semicolon → Level inside d ts e → Halt inside e (leaf l :: ts) .semicolon d
  | block {l : Lexeme} {d f : Cursor} {us ts : List TokenTree} :
      l.token = .opening .curly → Level (some .curly) d us f →
      Level inside (f.close .curly).2.1 ts e →
      Halt inside e (block l us (f.close .curly).1 :: ts) (.block l.start) d

section

variable {inside : Option Bracket} {l : Lexeme} {ts : List TokenTree}

/-- A scan puts what a turn has found in front of what it finds from the cursor ahead on. -/
theorem endingAt_scan (inside : Option Bracket) (c : Cursor) : endingAt (scan inside c) =
    afterTurn (fun put r => (put r.1, r.2)) (fun r => ((⟨[], none⟩, r.1), r.2.1))
      (fun d => endingAt (scan inside d)) (scanTurn inside c) := by
  rw [scan]
  cases scanTurn inside c with
  | error fault => rfl
  | ok turn =>
    cases turn with
    | returns => rfl
    | goesOn put d =>
      dsimp only [afterTurn]
      cases scan inside d.1 <;> rfl

theorem endingAt_scan_of_goesOn {put : Phrase → Phrase} {d : c.Ahead}
    (h : scanTurn inside c = .ok (.goesOn put d)) : endingAt (scan inside c) =
      (fun r => ((put r.1.1, r.1.2), r.2)) <$> endingAt (scan inside d.1) := by
  rw [endingAt_scan, h]
  rfl

/-- A turn at a lexeme that neither opens nor ends anything. -/
theorem scanTurn_of_leaf {d : c.Ahead} (h : c.next inside = some (l, d))
    (hopens : l.token.opens = none) (htoken : l.token ≠ .semicolon) :
    scanTurn inside c = (fun put => .goesOn put d) <$> Phrase.putLeaf l := by
  rw [scanTurn, h]
  dsimp only
  split
  · rename_i hsemicolon
    exact absurd hsemicolon htoken
  · rename_i hcurly
    rw [hcurly] at hopens
    cases hopens
  · simp only [hopens]

/-- A turn at a lexeme that opens a block which is copied whole. -/
theorem scanTurn_of_block {d : c.Ahead} {b : Bracket} {us : List TokenTree}
    (h : c.next inside = some (l, d)) (hopens : l.token.opens = some b)
    (htoken : l.token ≠ .opening .curly) (hinner : Level (some b) d.1 us e) :
    scanTurn inside c =
      if (e.close b).1.isNone then .error ⟨.unclosedParenthesis, l.start⟩
      else .ok (.goesOn (Phrase.behind (block l us (e.close b).1).source)
        (d.andThen ((skip b d.1).close b).2)) := by
  obtain ⟨hcloser, -, hsource⟩ := Level.skip_close h hinner
  rw [← hsource, ← hcloser, scanTurn, h]
  dsimp only
  split
  · rename_i hsemicolon
    rw [hsemicolon] at hopens
    cases hopens
  · rename_i hcurly
    exact absurd hcurly htoken
  · simp only [hopens, skipBlock_eq]
    dsimp only [bind, Except.bind]
    rw [Option.not_isSome]
    split <;> rfl

/-- A scan passes the trees that end no statement, and has their phrase. -/
theorem Level.scan_eq (h : Level inside c ts e) : ∃ us rest t d, ts = us ++ rest ∧
    (∀ u ∈ us, GoesOn u) ∧ Halt inside e rest t d ∧
    endingAt (scan inside c) = (fun p => ((p, t), d)) <$> Phrase.ofTrees us := by
  induction h with
  | @done inside c h =>
    have hturn : scanTurn inside c = .ok (.returns (.ended, c.here)) := by
      rw [scanTurn, h]
    exact ⟨[], [], .ended, c, rfl, List.forall_mem_nil _, .ended, by rw [endingAt_scan, hturn]; rfl⟩
  | @leaf inside c e l d ts h hopens hrest ih =>
    by_cases htoken : l.token = .semicolon
    · have hturn : scanTurn inside c = .ok (.returns (.semicolon, d.toOnward)) := by
        rw [scanTurn, h]
        simp only [htoken]
      exact ⟨[], _, .semicolon, d.1, rfl, List.forall_mem_nil _, .semicolon htoken hrest,
        by rw [endingAt_scan, hturn]; rfl⟩
    · obtain ⟨us, rest, t, d', rfl, hgoes, hhalt, hscan⟩ := ih
      refine ⟨TokenTree.leaf l :: us, rest, t, d', rfl, List.forall_mem_cons.2 ⟨htoken, hgoes⟩,
        hhalt, ?_⟩
      have hturn := scanTurn_of_leaf h hopens htoken
      rw [Phrase.ofTrees_cons_leaf]
      cases hput : Phrase.putLeaf l with
      | error fault =>
        rw [hput] at hturn
        rw [endingAt_scan, hturn]
        rfl
      | ok put =>
        rw [hput] at hturn
        rw [endingAt_scan_of_goesOn hturn, hscan]
        cases Phrase.ofTrees us <;> rfl
  | @block inside c e f l d b us ts h hopens hinner hrest _ ih =>
    by_cases htoken : l.token = .opening .curly
    · obtain rfl : Bracket.curly = b := by
        rw [htoken] at hopens
        exact Option.some.inj hopens
      have hturn : scanTurn inside c = .ok (.returns (.block l.start, d.toOnward)) := by
        rw [scanTurn, h]
        simp only [htoken]
      exact ⟨[], _, .block l.start, d.1, rfl, List.forall_mem_nil _, .block htoken hinner hrest,
        by rw [endingAt_scan, hturn]; rfl⟩
    · obtain ⟨us', rest, t, d', rfl, hgoes, hhalt, hscan⟩ := ih
      refine ⟨_ :: us', rest, t, d', rfl, List.forall_mem_cons.2 ⟨htoken, hgoes⟩, hhalt, ?_⟩
      have hturn := scanTurn_of_block h hopens htoken hinner
      rw [Phrase.ofTrees]
      cases hclosed : (e.close b).1 with
      | none =>
        rw [hclosed] at hturn
        rw [endingAt_scan, hturn]
        rfl
      | some closer =>
        rw [hclosed] at hturn
        rw [endingAt_scan_of_goesOn hturn, (Level.skip_close h hinner).2.1, hscan]
        cases Phrase.ofTrees us' <;> rfl

end

/-! ## Nodes -/

/-- A scan from a cursor at a lexeme, with the cursor ahead that it ends at. -/
def scanAgain {inside : Option Bracket} {x : Lexeme × c.Ahead} (hnext : c.next inside = some x) :
    Except Fault ((Phrase × Terminator) × c.Ahead) :=
  match h : scan inside c with
  | .error f => .error f
  | .ok (r, e) => .ok (r, ⟨e.1, passes_of_scan hnext h⟩)

/-- The statement that has been scanned; `inner` reads the nodes of its block, if it has one. -/
def statement (opening : Opening) (scanned : Except Fault ((Phrase × Terminator) × c.Ahead))
    (inner : (d : c.Ahead) → Except Fault (List Node × d.1.Onward)) :
    Except Fault (Turn c Unit (Option Node)) := do
  let ((p, t), d) ← scanned
  match t with
  | .block start =>
    let ((children, closed), e) ← nested .curly (inner d)
    if !closed then throw ⟨.unclosedBlock, start⟩
    return .goesOn (some (Pending.withBlock opening p children)) (d.andThen e)
  | _ =>
    let node ← Pending.finish opening p
    return .goesOn node d

/-- A turn of the loop that reads nodes, at a lexeme; `inner` reads the nodes of a block. -/
def nodeTurnAt {inside : Option Bracket} {l : Lexeme} {d : c.Ahead}
    (hnext : c.next inside = some (l, d))
    (inner : (d : c.Ahead) → Except Fault (List Node × d.1.Onward)) :
    Except Fault (Turn c Unit (Option Node)) :=
  if isGap l.token then .ok (.goesOn none d)
  else
    match l.token with
    | .comment text =>
      if l.commentCloses then .ok (.goesOn (some (.comment text)) d)
      else .error ⟨.unclosedComment, l.start⟩
    | .atKeyword name =>
      statement (.atRule name) ((fun r => (r.1, d.andThen r.2)) <$> scan inside d.1) inner
    | _ => statement (.plain l.start) (scanAgain hnext) inner

/-- One turn of the loop that reads nodes. -/
def nodeTurn (inside : Option Bracket) (c : Cursor)
    (inner : (d : c.Ahead) → Except Fault (List Node × d.1.Onward)) :
    Except Fault (Turn c Unit (Option Node)) :=
  match hnext : c.next inside with
  | none => .ok (.returns ())
  | some (_, _) => nodeTurnAt hnext inner

/-- The nodes from a cursor on, and the cursor behind them. -/
def nodes (inside : Option Bracket) (c : Cursor) : Except Fault (List Node × c.Onward) :=
  match nodeTurn inside c fun d => nodes (some .curly) d.1 with
  | .error f => .error f
  | .ok (.returns ()) => .ok ([], c.here)
  | .ok (.goesOn node d) => do
    let (ns, e) ← nodes inside d.1
    return (node.toList ++ ns, d.toOnward.andThen e)
termination_by c.ahead.length
decreasing_by all_goals exact d.2.length_lt

/-! ## The loops and the trees -/

/-- What the loop that reads nodes finds after a turn. -/
def nodesAfter (inside : Option Bracket) :
    Except Fault (Turn c Unit (Option Node)) → Except Fault (List Node × Cursor) :=
  afterTurn (fun node ns => node.toList ++ ns) (fun _ => ([], c)) fun d => endingAt (nodes inside d)

theorem endingAt_nodes (inside : Option Bracket) (c : Cursor) : endingAt (nodes inside c) =
    nodesAfter inside (nodeTurn inside c fun d => nodes (some .curly) d.1) := by
  rw [nodes]
  cases nodeTurn inside c fun d => nodes (some .curly) d.1 with
  | error f => rfl
  | ok turn =>
    cases turn with
    | returns => rfl
    | goesOn node d =>
      dsimp only [nodesAfter, afterTurn]
      cases nodes inside d.1 <;> rfl

/-- From a cursor behind the given one the loop finds what the trees spell that it passes. -/
def ReadsBehind (c : Cursor) : Prop :=
  ∀ (inside : Option Bracket) (d e : Cursor) (ts : List TokenTree), c.Passes d →
    Level inside d ts e → endingAt (nodes inside d) = (·, e) <$> readTrees none ts

section

variable {inside : Option Bracket} {l : Lexeme} {us ts rest : List TokenTree}

theorem exists_of_endingAt_ok {α : Type} {x : Except Fault (α × c.Onward)} {a : α} {d : Cursor}
    (h : endingAt x = .ok (a, d)) : ∃ r : c.Onward, x = .ok (a, r) ∧ r.1 = d := by
  obtain ⟨⟨a', r⟩, hx, hr⟩ := map_eq_ok h
  cases hr
  exact ⟨r, hx, rfl⟩

/-- A statement that the end of its level ends. -/
theorem readTrees_ended (opening : Opening) (us : List TokenTree) :
    readTrees (some ⟨opening, us.reverse⟩) [] = (do
      let p ← Phrase.ofTrees us
      let node ← Pending.finish opening p
      return node.toList) := by
  rw [readTrees, Pending.close_eq, List.reverse_reverse]
  cases Phrase.ofTrees us with
  | error fault => rfl
  | ok p =>
    dsimp only [bind, Except.bind]
    cases Pending.finish opening p <;> rfl

/-- A statement that a semicolon ends. -/
theorem readTrees_semicolon (htoken : l.token = .semicolon) (opening : Opening)
    (us ts : List TokenTree) :
    readTrees (some ⟨opening, us.reverse⟩) (leaf l :: ts) = (do
      let p ← Phrase.ofTrees us
      let node ← Pending.finish opening p
      let ns ← readTrees none ts
      return node.toList ++ ns) := by
  rw [readTrees, if_pos htoken, Pending.close_eq, List.reverse_reverse]
  cases Phrase.ofTrees us <;> rfl

/-- A statement that a block ends. -/
theorem readTrees_curly (htoken : l.token = .opening .curly) (opening : Opening)
    (contents us ts : List TokenTree) (closer : Option Lexeme) :
    readTrees (some ⟨opening, us.reverse⟩) (block l contents closer :: ts) = (do
      let p ← Phrase.ofTrees us
      let children ← readTrees none contents
      if closer.isNone then throw ⟨.unclosedBlock, l.start⟩
      let ns ← readTrees none ts
      return Pending.withBlock opening p children :: ns) := by
  rw [readTrees, if_pos htoken]
  dsimp only [Option.getD_some]
  rw [List.reverse_reverse]
  rfl

/-- A statement with a block whose nodes have been read up to its end. -/
theorem statement_block {opening : Opening} {p : Phrase} {start : Nat} {d : c.Ahead}
    {inner : (d : c.Ahead) → Except Fault (List Node × d.1.Onward)} {children : List Node}
    {r f : d.1.Onward} {closer : Option Lexeme} (hinner : inner d = .ok (children, r))
    (hend : r.1.next (some .curly) = none) (hclose : r.close .curly = (closer, f)) :
    statement opening (.ok ((p, .block start), d)) inner = (do
      if closer.isNone then throw ⟨.unclosedBlock, start⟩
      return .goesOn (some (Pending.withBlock opening p children)) (d.andThen f)) := by
  have hnested : nested .curly (inner d) = .ok ((children, closer.isSome), f) := by
    rw [hinner, nested_ok hend, hclose]
  dsimp only [statement, bind, Except.bind]
  rw [hnested]
  cases closer <;> rfl

/-- A fault that a scan meets is met. -/
theorem readTrees_of_faultyPhrase {opening : Opening} {fault : Fault} {t : Terminator}
    (hus : Phrase.ofTrees us = .error fault) (hhalt : Halt inside e rest t d) :
    readTrees (some ⟨opening, us.reverse⟩) rest = .error fault := by
  cases hhalt with
  | ended => rw [readTrees_ended, hus]; rfl
  | semicolon htoken => rw [readTrees_semicolon htoken, hus]; rfl
  | block htoken => rw [readTrees_curly htoken, hus]; rfl

/-- A statement that ends without a block, and what follows it. -/
theorem nodesAfter_finish (ih : ReadsBehind c) {opening : Opening} {p : Phrase} {d : c.Ahead}
    (hlevel : Level inside d.1 ts e) :
    nodesAfter inside ((fun node => Turn.goesOn node d) <$> Pending.finish opening p) = (do
      let node ← Pending.finish opening p
      let ns ← readTrees none ts
      return (node.toList ++ ns, e)) := by
  cases Pending.finish opening p with
  | error fault => rfl
  | ok node =>
    change (fun r => (node.toList ++ r.1, r.2)) <$> endingAt (nodes inside d.1) = _
    rw [ih inside d.1 e ts d.2 hlevel]
    cases readTrees none ts <;> rfl

/-- A statement that ends in a block, and what follows it. -/
theorem nodesAfter_block (ih : ReadsBehind c) {opening : Opening} {p : Phrase} {d : c.Ahead}
    {contents : List TokenTree} (start : Nat) (hinner : Level (some .curly) d.1 contents f)
    (hrest : Level inside (f.close .curly).2.1 ts e) :
    nodesAfter inside (statement opening (.ok ((p, .block start), d))
        fun d => nodes (some .curly) d.1) = (do
      let children ← readTrees none contents
      if (f.close .curly).1.isNone then throw ⟨.unclosedBlock, start⟩
      let ns ← readTrees none ts
      return (Pending.withBlock opening p children :: ns, e)) := by
  have hchildren := ih (some .curly) d.1 f contents d.2 hinner
  cases hcontents : readTrees none contents with
  | error fault =>
    rw [hcontents] at hchildren
    have hfault : nodes (some .curly) d.1 = .error fault := by
      cases hnodes : nodes (some .curly) d.1 <;> rw [hnodes] at hchildren <;> cases hchildren
      rfl
    dsimp only [statement, bind, Except.bind]
    rw [hfault]
    rfl
  | ok children =>
    rw [hcontents] at hchildren
    obtain ⟨r, hnodes, rfl⟩ := exists_of_endingAt_ok hchildren
    obtain ⟨closer, g, hclose⟩ : ∃ closer g, r.close .curly = (closer, g) := ⟨_, _, rfl⟩
    have hcloser : (r.1.close .curly).1 = closer := congrArg Prod.fst hclose
    have hplace : (r.1.close .curly).2.1 = g.1 := congrArg (fun x => x.2.1) hclose
    rw [hcloser, statement_block hnodes hinner.next_eq_none hclose]
    cases closer with
    | none => rfl
    | some closer =>
      rw [hplace] at hrest
      change (fun x => (_, x.2)) <$> endingAt (nodes inside g.1) = _
      rw [ih inside g.1 e ts (d.2.trans_reaches g.2) hrest]
      cases readTrees none ts <;> rfl

/-- A statement that has been scanned is what its trees spell, with what follows it. -/
theorem nodesAfter_statement (ih : ReadsBehind c) {opening : Opening}
    {scanned : Except Fault ((Phrase × Terminator) × c.Ahead)} {t : Terminator}
    (hscanned : (fun r => (r.1, r.2.1)) <$> scanned = (fun p => ((p, t), d)) <$> Phrase.ofTrees us)
    (hgoes : ∀ u ∈ us, GoesOn u) (hhalt : Halt inside e rest t d)
    (hend : e.next inside = none) :
    nodesAfter inside (statement opening scanned fun d => nodes (some .curly) d.1) =
      (·, e) <$> readTrees (some ⟨opening, []⟩) (us ++ rest) := by
  rw [readTrees_append_of_goesOn hgoes, List.append_nil]
  cases hphrase : Phrase.ofTrees us with
  | error fault =>
    rw [hphrase] at hscanned
    have hfault : scanned = .error fault := by
      cases scanned <;> cases hscanned
      rfl
    rw [hfault, readTrees_of_faultyPhrase hphrase hhalt]
    rfl
  | ok p =>
    rw [hphrase] at hscanned
    obtain ⟨⟨⟨p', t'⟩, d'⟩, rfl, hd⟩ := map_eq_ok hscanned
    cases hd
    cases hhalt with
    | ended =>
      refine (nodesAfter_finish ih (.done hend)).trans ?_
      rw [readTrees_ended, hphrase]
      dsimp only [bind, Except.bind]
      cases Pending.finish opening p with
      | error fault => rfl
      | ok node => exact congrArg (fun ns => Except.ok (ns, d'.1)) (List.append_nil _)
    | @semicolon _ _ ts htoken hrest =>
      refine (nodesAfter_finish ih hrest).trans ?_
      rw [readTrees_semicolon htoken, hphrase]
      dsimp only [bind, Except.bind]
      cases Pending.finish opening p with
      | error fault => rfl
      | ok node => cases readTrees none ts <;> rfl
    | @block l _ f contents ts htoken hinner hrest =>
      rw [nodesAfter_block ih l.start hinner hrest, readTrees_curly htoken, hphrase]
      dsimp only [bind, Except.bind]
      cases readTrees none contents with
      | error fault => rfl
      | ok children =>
        cases (f.close .curly).1 with
        | none => rfl
        | some closer => cases readTrees none ts <;> rfl

theorem nodeTurn_of_none (h : c.next inside = none)
    (inner : (d : c.Ahead) → Except Fault (List Node × d.1.Onward)) :
    nodeTurn inside c inner = .ok (.returns ()) := by
  unfold nodeTurn
  split
  · rfl
  · rename_i hnext
    rw [h] at hnext
    cases hnext

theorem nodeTurn_of_some {d : c.Ahead} (h : c.next inside = some (l, d))
    (inner : (d : c.Ahead) → Except Fault (List Node × d.1.Onward)) :
    nodeTurn inside c inner = nodeTurnAt h inner := by
  unfold nodeTurn
  split
  · rename_i hnext
    rw [h] at hnext
    cases hnext
  · rename_i hnext
    have hsame := hnext
    rw [h] at hsame
    cases hsame
    rfl

/-- A scan with the cursor ahead that it ends at is the scan. -/
theorem scanAgain_eq {x : Lexeme × c.Ahead} (h : c.next inside = some x) :
    (fun r => (r.1, r.2.1)) <$> scanAgain h = endingAt (scan inside c) := by
  unfold scanAgain
  split <;> rename_i hscan <;> exact (congrArg endingAt hscan).symm

theorem beginsPlain_of_opens {t : Token} {b : Bracket} (h : t.opens = some b) :
    beginsPlain t = true := by
  cases t with
  | function name => rfl
  | opening b => rfl
  | _ => cases h

/-- A plain statement is scanned from the cursor in front of its first lexeme. -/
theorem nodeTurnAt_of_beginsPlain {d : c.Ahead} (h : c.next inside = some (l, d))
    (hl : beginsPlain l.token = true)
    (inner : (d : c.Ahead) → Except Fault (List Node × d.1.Onward)) :
    nodeTurnAt h inner = statement (.plain l.start) (scanAgain h) inner := by
  rw [nodeTurnAt, if_neg (by simp [isGap_of_beginsPlain hl])]
  split
  · rename_i htoken
    rw [htoken] at hl
    cases hl
  · rename_i htoken
    rw [htoken] at hl
    cases hl
  · rfl

/-- The loop adds a node to what it finds from the cursor ahead on. -/
theorem nodesAfter_goesOn (ih : ReadsBehind c) {d : c.Ahead} (h : Level inside d.1 ts e)
    (node : Option Node) : nodesAfter inside (.ok (.goesOn node d)) =
      (fun ns => (node.toList ++ ns, e)) <$> readTrees none ts := by
  rw [nodesAfter, afterTurn, ih inside d.1 e ts d.2 h]
  cases readTrees none ts <;> rfl

/-- The loop finds the nodes that the trees it passes spell, or their first fault. -/
theorem Level.nodes_eq (h : Level inside c ts e) :
    endingAt (nodes inside c) = (·, e) <$> readTrees none ts := by
  induction hn : c.ahead.length using Nat.strongRecOn generalizing inside c e ts with
  | ind n ih =>
    subst hn
    have hbehind : ReadsBehind c := fun inside d e ts hd hlevel => ih _ hd.length_lt hlevel rfl
    have hend := h.next_eq_none
    have hscan := h.scan_eq
    rw [endingAt_nodes]
    cases h with
    | done h =>
      rw [nodeTurn_of_none h]
      rfl
    | @leaf _ _ _ l d ts h hopens hrest =>
      rw [nodeTurn_of_some h, nodeTurnAt]
      by_cases hgap : isGap l.token = true
      · rw [if_pos hgap, nodesAfter_goesOn hbehind hrest, readTrees, if_pos hgap]
        rfl
      · rw [if_neg hgap]
        split
        · rename_i text htoken
          rw [readTrees, if_neg hgap, htoken]
          dsimp only
          by_cases hcloses : l.commentCloses = true
          · rw [if_pos hcloses, if_pos hcloses, nodesAfter_goesOn hbehind hrest]
            cases readTrees none ts <;> rfl
          · rw [if_neg hcloses, if_neg hcloses]
            rfl
        · rename_i name htoken
          obtain ⟨us, rest, t, d', rfl, hgoes, hhalt, hscanned⟩ := hrest.scan_eq
          have hname : readTrees none (TokenTree.leaf l :: (us ++ rest)) =
              readTrees (some ⟨.atRule name, []⟩) (us ++ rest) := by
            rw [readTrees, if_neg hgap, htoken]
          rw [hname]
          refine nodesAfter_statement hbehind ?_ hgoes hhalt hend
          rw [← hscanned]
          cases scan inside d.1 <;> rfl
        · rename_i hcomment hat
          have hplain := beginsPlain_of_not_isGap hgap hcomment hat
          obtain ⟨us, rest, t, d', heq, hgoes, hhalt, hscanned⟩ := hscan
          rw [readTrees_none_leaf hplain, heq]
          exact nodesAfter_statement hbehind ((scanAgain_eq h).trans hscanned) hgoes hhalt hend
    | @block _ _ f _ l d b us ts h hopens hinner hrest =>
      obtain ⟨us', rest, t, d', heq, hgoes, hhalt, hscanned⟩ := hscan
      have hplain : readTrees none (TokenTree.block l us (f.close b).1 :: ts) =
          readTrees (some ⟨.plain l.start, []⟩) (TokenTree.block l us (f.close b).1 :: ts) := by
        rw [readTrees, readTrees]
        rfl
      rw [nodeTurn_of_some h, nodeTurnAt_of_beginsPlain h (beginsPlain_of_opens hopens), hplain,
        heq]
      exact nodesAfter_statement hbehind ((scanAgain_eq h).trans hscanned) hgoes hhalt hend

/-- The loop returns where its block or the text ends. -/
theorem next_eq_none_of_nodes {ns : List Node} {r : c.Onward} (h : nodes inside c = .ok (ns, r)) :
    r.1.next inside = none := by
  obtain ⟨ts, e, hlevel⟩ := exists_level inside c
  have hloop := hlevel.nodes_eq
  rw [h] at hloop
  obtain ⟨ms, -, hend⟩ := map_eq_ok hloop.symm
  obtain ⟨-, rfl⟩ := Prod.mk.inj hend
  exact hlevel.next_eq_none

/-- Nothing is left over of a block behind the nodes that the loop reads in it. -/
theorem nested_nodes (b : Bracket) (c : Cursor) : nested b (nodes (some b) c) =
    (fun r => ((r.1, (r.2.close b).1.isSome), (r.2.close b).2)) <$> nodes (some b) c :=
  nested_eq fun _ _ => next_eq_none_of_nodes

end

end Cursor

/-- The loop reads a sheet as it is read from the forest of its text. -/
theorem Sheet.nodes_eq_read (cs : List Char) :
    (fun r => r.1) <$> Cursor.nodes none ⟨0, cs⟩ = Sheet.read cs := by
  obtain ⟨ts, e, h⟩ := Cursor.exists_level none ⟨0, cs⟩
  have hloop := h.nodes_eq
  rw [Sheet.read, Cursor.forest_eq h]
  cases hread : readTrees none ts <;> cases hnodes : Cursor.nodes none ⟨0, cs⟩ <;>
    rw [hread, hnodes] at hloop <;> cases hloop <;> rfl

end CssPruning
