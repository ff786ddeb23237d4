import CssPruning.Proofs.Fallible
import CssPruning.Proofs.Token.Grouping
import CssPruning.Sheet.Reader

/-!
# What the reader accepts

`Sheet.Reads` is the relation between a statement that has begun, the trees to
come and the nodes that they spell.  It has one rule for each step of the reader
(`readTrees_eq_ok_iff`), and says nothing about faults.

The nodes of a forest do not hang on where its text starts (`Reads.moved`).
Forests in a row spell the nodes of the one and then those of the other, if the
first ends where a statement ends (`Reads.append`).  What a block is filled with
changes only the children of the last node (`Reads.fill`).
-/

set_option autoImplicit false

namespace CssPruning.Sheet

open TokenTree

/-! ## The relation -/

/-- A token that a plain statement begins with: neither a gap, a comment nor the
name of an at-rule. -/
def beginsPlain : Token → Bool
  | .comment _ | .atKeyword _ => false
  | t => !isGap t

theorem isGap_of_beginsPlain {t : Token} (h : beginsPlain t = true) : isGap t = false := by
  unfold beginsPlain at h
  split at h
  · cases h
  · cases h
  · simpa using h

theorem beginsPlain_of_not_isGap {t : Token} (hgap : ¬ isGap t = true)
    (hcomment : ∀ text, t ≠ .comment text) (hat : ∀ name, t ≠ .atKeyword name) :
    beginsPlain t = true := by
  unfold beginsPlain
  split
  · exact absurd rfl (hcomment _)
  · exact absurd rfl (hat _)
  · simpa using hgap

/-- The statement that has begun, or a plain one that begins with a block. -/
def pendingAt (pending : Option Pending) (opener : Lexeme) : Pending :=
  pending.getD ⟨.plain opener.start, []⟩

/-- The statement goes on behind the tree. -/
def GoesOn : TokenTree → Prop
  | leaf l => l.token ≠ .semicolon
  | block opener _ _ => opener.token ≠ .opening .curly

/-- The trees spell some nodes, after a statement that has begun. -/
inductive Reads : Option Pending → List TokenTree → List Node → Prop where
  | done : Reads none [] []
  /-- the text, or the block, ends inside of a statement -/
  | finish {p : Pending} {node : Option Node} : p.close = .ok node → Reads (some p) [] node.toList
  | gap {l : Lexeme} {ts : List TokenTree} {ns : List Node} :
      isGap l.token = true → Reads none ts ns → Reads none (leaf l :: ts) ns
  | comment {l : Lexeme} {text : String} {ts : List TokenTree} {ns : List Node} :
      l.token = .comment text → l.commentCloses = true → Reads none ts ns →
      Reads none (leaf l :: ts) (.comment text :: ns)
  | atRule {l : Lexeme} {name : String} {ts : List TokenTree} {ns : List Node} :
      l.token = .atKeyword name → Reads (some ⟨.atRule name, []⟩) ts ns →
      Reads none (leaf l :: ts) ns
  | plain {l : Lexeme} {ts : List TokenTree} {ns : List Node} :
      beginsPlain l.token = true → Reads (some ⟨.plain l.start, [leaf l]⟩) ts ns →
      Reads none (leaf l :: ts) ns
  | stop {p : Pending} {l : Lexeme} {node : Option Node} {ts : List TokenTree} {ns : List Node} :
      l.token = .semicolon → p.close = .ok node → Reads none ts ns →
      Reads (some p) (leaf l :: ts) (node.toList ++ ns)
  | more {p : Pending} {l : Lexeme} {ts : List TokenTree} {ns : List Node} :
      l.token ≠ .semicolon → Reads (some ⟨p.opening, leaf l :: p.trees⟩) ts ns →
      Reads (some p) (leaf l :: ts) ns
  | block {pending : Option Pending} {opener closer : Lexeme} {contents ts : List TokenTree}
      {phrase : Phrase} {children ns : List Node} :
      opener.token = .opening .curly →
      Phrase.ofTrees (pendingAt pending opener).trees.reverse = .ok phrase →
      Reads none contents children → Reads none ts ns →
      Reads pending (block opener contents (some closer) :: ts)
        (Pending.withBlock (pendingAt pending opener).opening phrase children :: ns)
  | brackets {pending : Option Pending} {opener : Lexeme} {closer : Option Lexeme}
      {contents ts : List TokenTree} {ns : List Node} :
      opener.token ≠ .opening .curly →
      Reads (some ⟨(pendingAt pending opener).opening,
        TokenTree.block opener contents closer :: (pendingAt pending opener).trees⟩) ts ns →
      Reads pending (TokenTree.block opener contents closer :: ts) ns

/-! ## The relation and the reader -/

/-- What the relation says is what the reader answers. -/
theorem Reads.readTrees_eq {pending : Option Pending} {ts : List TokenTree} {ns : List Node}
    (h : Reads pending ts ns) : readTrees pending ts = .ok ns := by
  induction h with
  | done => rfl
  | finish hclose => rw [readTrees, hclose]; rfl
  | gap hgap _ ih => rw [readTrees, if_pos hgap, ih]
  | @comment l text ts ns htoken hcloses _ ih =>
    rw [readTrees, htoken, if_neg (by simp [isGap])]
    simp only [if_pos hcloses, ih]
    rfl
  | @atRule l name ts ns htoken _ ih =>
    rw [readTrees, htoken, if_neg (by simp [isGap])]
    exact ih
  | @plain l ts ns hbegins _ ih =>
    have hgap : ¬ isGap l.token = true := by simp [isGap_of_beginsPlain hbegins]
    rw [readTrees, if_neg hgap]
    split
    · rename_i htoken
      rw [htoken] at hbegins
      cases hbegins
    · rename_i htoken
      rw [htoken] at hbegins
      cases hbegins
    · exact ih
  | stop htoken hclose _ ih =>
    rw [readTrees, if_pos htoken, hclose, ih]
    rfl
  | more htoken _ ih => rw [readTrees, if_neg htoken, ih]
  | @block pending opener closer contents ts phrase children ns hopener hphrase _ _ ihc ih =>
    have hread : readTrees pending (.block opener contents (some closer) :: ts) = (do
        let phrase ← Phrase.ofTrees (pendingAt pending opener).trees.reverse
        let children ← readTrees none contents
        let nodes ← readTrees none ts
        return Pending.withBlock (pendingAt pending opener).opening phrase children :: nodes) := by
      cases pending <;> rw [readTrees, if_pos hopener] <;> rfl
    rw [hread, hphrase, ihc, ih]
    rfl
  | brackets hopener _ ih =>
    simp only [readTrees, if_neg hopener]
    exact ih

/-- What the reader answers is what the relation says. -/
theorem reads_of_readTrees {pending : Option Pending} {ts : List TokenTree} {ns : List Node}
    (h : readTrees pending ts = .ok ns) : Reads pending ts ns := by
  induction ts using forestInduction generalizing pending ns with
  | nil =>
    cases pending with
    | none => cases h; exact .done
    | some p =>
      obtain ⟨node, hclose, rfl⟩ := map_eq_ok h
      exact .finish hclose
  | leaf l ts ih =>
    cases pending with
    | none =>
      rw [readTrees] at h
      split at h
      · rename_i hgap
        exact .gap hgap (ih h)
      · rename_i hgap
        split at h
        · rename_i text htoken
          split at h
          · rename_i hcloses
            obtain ⟨ms, hms, rfl⟩ := map_eq_ok h
            exact .comment htoken hcloses (ih hms)
          · cases h
        · rename_i name htoken
          exact .atRule htoken (ih h)
        · rename_i hcomment hat
          exact .plain (beginsPlain_of_not_isGap hgap hcomment hat) (ih h)
    | some p =>
      rw [readTrees] at h
      split at h
      · rename_i htoken
        obtain ⟨node, hclose, h⟩ := bind_eq_ok h
        obtain ⟨ms, hms, h⟩ := bind_eq_ok h
        cases h
        exact .stop htoken hclose (ih hms)
      · rename_i htoken
        exact .more htoken (ih h)
  | block opener contents closer ts ihc ih =>
    simp only [readTrees] at h
    split at h
    · rename_i hopener
      obtain ⟨phrase, hphrase, h⟩ := bind_eq_ok h
      obtain ⟨children, hchildren, h⟩ := bind_eq_ok h
      cases closer with
      | none => cases h
      | some closer =>
        obtain ⟨ms, hms, h⟩ := bind_eq_ok h
        cases h
        exact .block hopener hphrase (ihc hchildren) (ih hms)
    · rename_i hopener
      exact .brackets hopener (ih h)

/-- The relation is the graph of the reader, faults apart. -/
theorem readTrees_eq_ok_iff {pending : Option Pending} {ts : List TokenTree} {ns : List Node} :
    readTrees pending ts = .ok ns ↔ Reads pending ts ns :=
  ⟨reads_of_readTrees, Reads.readTrees_eq⟩

/-! ## Statements -/

/-- The trees of a statement, in front of what ends it. -/
theorem readTrees_append_of_goesOn {opening : Opening} {trees ts us : List TokenTree}
    (hts : ∀ t ∈ ts, GoesOn t) : readTrees (some ⟨opening, trees⟩) (ts ++ us) =
      readTrees (some ⟨opening, ts.reverse ++ trees⟩) us := by
  induction ts generalizing trees with
  | nil => rfl
  | cons t ts ih =>
    rw [List.forall_mem_cons] at hts
    rw [List.reverse_cons, List.append_assoc, List.singleton_append, ← ih hts.2, List.cons_append]
    cases t with
    | leaf l => rw [readTrees, if_neg hts.1]
    | block opener contents closer =>
      rw [readTrees, if_neg hts.1]
      rfl

/-- A plain statement begins with its first tree. -/
theorem readTrees_none_leaf {l : Lexeme} (hl : beginsPlain l.token = true) (ts : List TokenTree) :
    readTrees none (leaf l :: ts) = readTrees (some ⟨.plain l.start, []⟩) (leaf l :: ts) := by
  have hgap := isGap_of_beginsPlain hl
  have hsemicolon : l.token ≠ .semicolon := by
    intro htoken
    rw [htoken] at hgap
    cases hgap
  rw [readTrees, readTrees, if_neg (by simp [hgap]), if_neg hsemicolon]
  split
  · rename_i htoken
    rw [htoken] at hl
    cases hl
  · rename_i htoken
    rw [htoken] at hl
    cases hl
  · rfl

/-! ## Where the text starts -/

theorem source_moved (k : Nat) (t : TokenTree) : (t.moved k).source = t.source := by
  rw [moved_eq_map, source_map (Lexeme.source_moved k)]

/-- What a leaf that is neither a closing bracket, a comment, a string nor a colon
adds to a phrase. -/
theorem ofTrees_leaf {l : Lexeme}
    (hcloses : l.token ≠ .closing .curly) (hcomment : ∀ text, l.token ≠ .comment text)
    (hbad : l.token ≠ .badString) (hstring : ∀ text, l.token ≠ .string text)
    (hcolon : l.token ≠ .colon) (ts : List TokenTree) :
    Phrase.ofTrees (leaf l :: ts) = Phrase.behind l.source <$> Phrase.ofTrees ts := by
  rw [Phrase.ofTrees]
  split
  · exact absurd ‹_› hcloses
  · exact absurd ‹_› (hcomment _)
  · exact absurd ‹_› hbad
  · exact absurd ‹_› (hstring _)
  · exact absurd ‹_› hcolon
  · rfl

/-- The phrase of a forest does not hang on where its text starts. -/
theorem ofTrees_allMoved {ts : List TokenTree} {phrase : Phrase} (k : Nat)
    (h : Phrase.ofTrees ts = .ok phrase) : Phrase.ofTrees (allMoved k ts) = .ok phrase := by
  fun_induction Phrase.ofTrees ts generalizing phrase with
  | case1 => exact h
  | case2 l ts htoken ih =>
    have htoken' : (l.moved k).token = .closing .curly := htoken
    rw [allMoved, moved, Phrase.ofTrees, htoken']
    exact ih h
  | case3 l ts text htoken hcloses ih =>
    have htoken' : (l.moved k).token = .comment text := htoken
    rw [allMoved, moved, Phrase.ofTrees, htoken']
    exact (if_pos hcloses).trans (ih h)
  | case4 => cases h
  | case5 => cases h
  | case6 l ts text htoken hcloses ih =>
    obtain ⟨p, hp, rfl⟩ := map_eq_ok h
    have htoken' : (l.moved k).token = .string text := htoken
    rw [allMoved, moved, Phrase.ofTrees, htoken']
    simp only
    rw [if_pos (show (l.moved k).stringCloses = true from hcloses), ih hp]
    rfl
  | case7 => cases h
  | case8 l ts htoken ih =>
    obtain ⟨p, hp, rfl⟩ := map_eq_ok h
    have htoken' : (l.moved k).token = .colon := htoken
    rw [allMoved, moved, Phrase.ofTrees, htoken']
    simp only
    rw [ih hp]
    rfl
  | case9 l ts hcloses hcomment hbad hstring hcolon ih =>
    obtain ⟨p, hp, rfl⟩ := map_eq_ok h
    have hleaf := ofTrees_leaf (l := l.moved k) hcloses hcomment hbad hstring hcolon (allMoved k ts)
    rw [allMoved, moved, hleaf, ih hp]
    rfl
  | case10 opener contents closer ts hclosed ih =>
    obtain ⟨p, hp, rfl⟩ := map_eq_ok h
    rw [allMoved, moved, Phrase.ofTrees, if_pos (by simpa using hclosed), ih hp]
    have hsource := source_moved k (.block opener contents closer)
    rw [moved] at hsource
    rw [hsource]
    rfl
  | case11 => cases h

theorem allMoved_reverse (k : Nat) (ts : List TokenTree) :
    allMoved k ts.reverse = (allMoved k ts).reverse := by
  rw [allMoved_eq_mapAll, allMoved_eq_mapAll, mapAll_reverse]

/-- The statement of a text that starts some characters later. -/
def movedPending (k : Nat) (p : Pending) : Pending :=
  ⟨match p.opening with
    | .atRule name => .atRule name
    | .plain start => .plain (k + start), allMoved k p.trees⟩

/-- A declaration does not hang on where it starts. -/
theorem declaration_read_start {property value : List Char} {start start' : Nat} {d : Declaration}
    (h : Declaration.read property value start = .ok d) :
    Declaration.read property value start' = .ok d := by
  unfold Declaration.read at h ⊢
  split at h
  · cases h
  · exact h

theorem close_movedPending {p : Pending} {node : Option Node} (k : Nat)
    (h : p.close = .ok node) : (movedPending k p).close = .ok node := by
  obtain ⟨opening, trees⟩ := p
  unfold Pending.close at h ⊢
  obtain ⟨phrase, hphrase, h⟩ := bind_eq_ok h
  have hphrase' : Phrase.ofTrees (movedPending k ⟨opening, trees⟩).trees.reverse = .ok phrase := by
    rw [movedPending, ← allMoved_reverse]
    exact ofTrees_allMoved k hphrase
  rw [hphrase']
  cases opening with
  | atRule name => exact h
  | plain start =>
    simp only [movedPending, bind, Except.bind] at h ⊢
    split at h
    · rename_i hempty
      rw [if_pos hempty]
      exact h
    · rename_i hempty
      rw [if_neg hempty]
      cases htail : phrase.tail with
      | none =>
        rw [htail] at h
        exact h
      | some value =>
        rw [htail] at h
        simp only at h ⊢
        split at h
        · rename_i hhead
          rw [if_pos hhead]
          exact h
        · rename_i hhead
          obtain ⟨d, hd, h⟩ := bind_eq_ok h
          rw [if_neg hhead, declaration_read_start hd]
          exact h

/-- The nodes of a forest do not hang on where its text starts. -/
theorem Reads.moved {pending : Option Pending} {ts : List TokenTree} {ns : List Node}
    (h : Reads pending ts ns) (k : Nat) :
    Reads (pending.map (movedPending k)) (allMoved k ts) ns := by
  have hpending : ∀ (pending : Option Pending) (opener : Lexeme),
      pendingAt (pending.map (movedPending k)) (opener.moved k) =
        movedPending k (pendingAt pending opener) := by
    intro pending opener
    cases pending <;> rfl
  induction h with
  | done => exact .done
  | finish hclose => exact .finish (close_movedPending k hclose)
  | gap hgap _ ih => exact .gap hgap ih
  | comment htoken hcloses _ ih => exact .comment htoken hcloses ih
  | atRule htoken _ ih => exact .atRule htoken ih
  | plain hbegins _ ih => exact .plain hbegins ih
  | stop htoken hclose _ ih => exact .stop htoken (close_movedPending k hclose) ih
  | more htoken _ ih => exact .more htoken ih
  | @block pending opener closer contents ts phrase children ns hopener hphrase _ _ ihc ih =>
    have hphrase' : Phrase.ofTrees
        (pendingAt (pending.map (movedPending k)) (opener.moved k)).trees.reverse = .ok phrase := by
      rw [hpending, movedPending, ← allMoved_reverse]
      exact ofTrees_allMoved k hphrase
    have hnode : Pending.withBlock (pendingAt pending opener).opening phrase children =
        Pending.withBlock (pendingAt (pending.map (movedPending k)) (opener.moved k)).opening phrase
          children := by
      rw [hpending, movedPending]
      cases (pendingAt pending opener).opening <;> rfl
    rw [hnode]
    exact .block hopener hphrase' ihc ih
  | @brackets pending opener closer contents ts ns hopener _ ih =>
    refine .brackets hopener ?_
    rw [hpending]
    exact ih

/-! ## Forests in a row -/

/-- A tree that ends a statement: a semicolon, or a closed block in curly
brackets. -/
def endsStatement : TokenTree → Bool
  | leaf l => l.token == .semicolon
  | block opener _ closer => opener.token == .opening .curly && closer.isSome

/-- A forest that ends where a statement ends, and then another. -/
theorem Reads.append {pending : Option Pending} {ts us : List TokenTree} {t : TokenTree}
    {ns ms : List Node} (h : Reads pending (ts ++ [t]) ns) (ht : endsStatement t = true)
    (h' : Reads none us ms) : Reads pending (ts ++ t :: us) (ns ++ ms) := by
  induction ts generalizing pending ns with
  | nil =>
    cases h with
    | gap hgap h => cases h; exact .gap hgap h'
    | comment htoken => simp [endsStatement, htoken] at ht
    | atRule htoken => simp [endsStatement, htoken] at ht
    | plain hbegins =>
      have htoken := eq_of_beq ht
      rw [htoken] at hbegins
      cases hbegins
    | stop htoken hclose h =>
      cases h
      rw [List.append_nil]
      exact .stop htoken hclose h'
    | more htoken => exact absurd (eq_of_beq ht) htoken
    | block hopener hphrase hcontents h => cases h; exact .block hopener hphrase hcontents h'
    | brackets hopener => simp [endsStatement, hopener] at ht
  | cons t' ts ih =>
    cases h with
    | gap hgap h => exact .gap hgap (ih h)
    | comment htoken hcloses h => exact .comment htoken hcloses (ih h)
    | atRule htoken h => exact .atRule htoken (ih h)
    | plain hbegins h => exact .plain hbegins (ih h)
    | stop htoken hclose h =>
      rw [List.append_assoc]
      exact .stop htoken hclose (ih h)
    | more htoken h => exact .more htoken (ih h)
    | block hopener hphrase hcontents h => exact .block hopener hphrase hcontents (ih h)
    | brackets hopener h => exact .brackets hopener (ih h)

/-- A semicolon at the end of a forest adds nothing. -/
theorem Reads.of_append_semicolon {pending : Option Pending} {ts : List TokenTree} {l : Lexeme}
    {ns : List Node} (hl : l.token = .semicolon) (h : Reads pending (ts ++ [leaf l]) ns) :
    Reads pending ts ns := by
  induction ts generalizing pending ns with
  | nil =>
    cases h with
    | gap _ h => exact h
    | comment htoken => rw [hl] at htoken; cases htoken
    | atRule htoken => rw [hl] at htoken; cases htoken
    | plain hbegins => rw [hl] at hbegins; cases hbegins
    | stop _ hclose h =>
      cases h
      rw [List.append_nil]
      exact .finish hclose
    | more htoken => exact absurd hl htoken
  | cons t ts ih =>
    cases h with
    | gap hgap h => exact .gap hgap (ih h)
    | comment htoken hcloses h => exact .comment htoken hcloses (ih h)
    | atRule htoken h => exact .atRule htoken (ih h)
    | plain hbegins h => exact .plain hbegins (ih h)
    | stop htoken hclose h => exact .stop htoken hclose (ih h)
    | more htoken h => exact .more htoken (ih h)
    | block hopener hphrase hcontents h => exact .block hopener hphrase hcontents (ih h)
    | brackets hopener h => exact .brackets hopener (ih h)

/-! ## Other children -/

/-- The node of a block with other children. -/
def withChildren (children : List Node) : Node → Node
  | .rule selector _ => .rule selector children
  | .atRule name prelude _ => .atRule name prelude (some children)
  | n => n

theorem withBlock_eq_withChildren (opening : Opening) (phrase : Phrase) (children : List Node) :
    Pending.withBlock opening phrase children =
      withChildren children (Pending.withBlock opening phrase []) := by
  cases opening <;> rfl

/-- If a forest ends in an empty block, then with another block in its place the
last of its nodes has the children that are in there. -/
theorem Reads.exists_fill {pending : Option Pending} {ts contents : List TokenTree}
    {opener closer : Lexeme} {children ns : List Node} (closer' : Lexeme)
    (h : Reads pending (ts ++ [.block opener [] (some closer)]) ns)
    (hopener : opener.token = .opening .curly) (h' : Reads none contents children) :
    ∃ before n, ns = before ++ [n] ∧
      Reads pending (ts ++ [.block opener contents (some closer')])
        (before ++ [withChildren children n]) := by
  induction ts generalizing pending ns with
  | nil =>
    cases h with
    | block _ hphrase hcontents h =>
      cases h
      cases hcontents
      refine ⟨[], _, rfl, ?_⟩
      rw [List.nil_append, List.nil_append, ← withBlock_eq_withChildren]
      exact .block hopener hphrase h' .done
    | brackets hne => exact absurd hopener hne
  | cons t ts ih =>
    cases h with
    | gap hgap h =>
      obtain ⟨before, n, hns, hread⟩ := ih h
      exact ⟨before, n, hns, .gap hgap hread⟩
    | @comment _ text _ _ htoken hcloses h =>
      obtain ⟨before, n, rfl, hread⟩ := ih h
      exact ⟨.comment text :: before, n, rfl, .comment htoken hcloses hread⟩
    | atRule htoken h =>
      obtain ⟨before, n, hns, hread⟩ := ih h
      exact ⟨before, n, hns, .atRule htoken hread⟩
    | plain hbegins h =>
      obtain ⟨before, n, hns, hread⟩ := ih h
      exact ⟨before, n, hns, .plain hbegins hread⟩
    | @stop p l node _ _ htoken hclose h =>
      obtain ⟨before, n, rfl, hread⟩ := ih h
      refine ⟨node.toList ++ before, n, (List.append_assoc ..).symm, ?_⟩
      rw [List.append_assoc]
      exact .stop htoken hclose hread
    | more htoken h =>
      obtain ⟨before, n, hns, hread⟩ := ih h
      exact ⟨before, n, hns, .more htoken hread⟩
    | block hcurly hphrase hcontents h =>
      obtain ⟨before, n, rfl, hread⟩ := ih h
      exact ⟨_ :: before, n, rfl, .block hcurly hphrase hcontents hread⟩
    | brackets hne h =>
      obtain ⟨before, n, hns, hread⟩ := ih h
      exact ⟨before, n, hns, .brackets hne hread⟩

/-- If a forest that ends in an empty block spells one node, then with another
block in its place it spells the node with the children that are in there. -/
theorem Reads.fill {pending : Option Pending} {ts contents : List TokenTree} {n : Node}
    {opener closer : Lexeme} {children : List Node} (closer' : Lexeme)
    (h : Reads pending (ts ++ [.block opener [] (some closer)]) [n])
    (hopener : opener.token = .opening .curly) (h' : Reads none contents children) :
    Reads pending (ts ++ [.block opener contents (some closer')]) [withChildren children n] := by
  obtain ⟨before, n', hn, hreads⟩ := exists_fill closer' h hopener h'
  rcases List.append_eq_singleton_iff.1 hn.symm with ⟨hbefore, hn'⟩ | ⟨-, hnil⟩
  · rw [hbefore, List.nil_append] at hreads
    rwa [List.cons.inj hn' |>.1] at hreads
  · cases hnil

end CssPruning.Sheet
