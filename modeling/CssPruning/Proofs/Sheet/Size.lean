import CssPruning.Proofs.Sheet.Loops
import CssPruning.Proofs.Token.Fronts
import CssPruning.Proofs.Value.Forest
import CssPruning.Proofs.Value.Loop

/-!
# The size of what is read

Nodes and components, at all depths, are not more than the characters of the text that
they were read from.  A component takes at least one character of its own, for every
lexeme takes some text; a node does so by its bracket, its at-sign, its colon or, if it
is raw text, by any of its characters.

A declaration's value is read from the text of the declaration, once that has been
scanned.  So the characters behind its colon count for the components of the value, and
the colon for the declaration.
-/

set_option autoImplicit false

namespace CssPruning

open Sheet TokenTree

/-! ## Components -/

namespace Component

mutual

/-- The component and those inside of it, at all depths. -/
def count : Component → Nat
  | function _ arguments => 1 + allCount arguments
  | parentheses contents => 1 + allCount contents
  | _ => 1
termination_by structural c => c

/-- The components of a value, at all depths. -/
def allCount : List Component → Nat
  | [] => 0
  | c :: cs => count c + allCount cs
termination_by structural cs => cs

end

theorem allCount_append (v w : Value) : allCount (v ++ w) = allCount v + allCount w := by
  induction v with
  | nil => exact (Nat.zero_add _).symm
  | cons c v ih => rw [List.cons_append, allCount, allCount, ih, Nat.add_assoc]

theorem allCount_le_of_sublist {v w : Value} (h : v.Sublist w) : allCount v ≤ allCount w := by
  induction h with
  | slnil => exact Nat.le_refl _
  | cons c _ ih => exact Nat.le_trans ih (Nat.le_add_left _ _)
  | cons_cons c _ ih => exact Nat.add_le_add_left ih _

theorem count_call_le (name : String) (arguments : Value) :
    (call name arguments).count ≤ 1 + allCount arguments := by
  unfold call
  split
  · split
    · exact Nat.le_add_right _ _
    · exact Nat.le_refl _
  · exact Nat.le_refl _

/-- A lexeme is one component at most. -/
theorem allCount_ofLexeme_le {l : Lexeme} {found : Option Component}
    (h : ofLexeme l = .ok found) : allCount found.toList ≤ 1 := by
  unfold ofLexeme at h
  split at h
  case h_2 => split at h <;> cases h; exact Nat.zero_le _
  case h_4 => split at h <;> cases h; exact Nat.le_refl _
  case h_14 => cases h; split <;> exact Nat.le_refl _
  all_goals cases h <;> exact Nat.le_refl _

end Component

namespace TokenTree

/-- Every lexeme takes some text. -/
def AllSourced (ts : List TokenTree) : Prop := ∀ l ∈ allLexemes ts, l.source ≠ []

variable {l : Lexeme} {closer : Option Lexeme} {us ts : List TokenTree}

theorem allSourced_leaf_cons :
    AllSourced (leaf l :: ts) ↔ l.source ≠ [] ∧ AllSourced ts :=
  List.forall_mem_cons

theorem AllSourced.of_block (h : AllSourced (block l us closer :: ts)) :
    l.source ≠ [] ∧ AllSourced us ∧ AllSourced ts := by
  rw [AllSourced, allLexemes, lexemes, List.cons_append, List.forall_mem_cons,
    List.forall_mem_append, List.forall_mem_append] at h
  exact ⟨h.1, h.2.1.1, h.2.2⟩

theorem allSourced_forest (cs : List Char) : AllSourced (forest cs) := by
  rw [AllSourced, lexemes_forest]
  exact fun l hl => source_ne_nil_of_mem_tokenizeFrom hl

theorem allSourced_nil : AllSourced [] := List.forall_mem_nil _

theorem allSourced_cons {t : TokenTree} :
    AllSourced (t :: ts) ↔ (∀ l ∈ t.lexemes, l.source ≠ []) ∧ AllSourced ts :=
  List.forall_mem_append

theorem AllSourced.reverse (h : AllSourced ts) : AllSourced ts.reverse := by
  intro l hl
  rw [allLexemes_eq_flatMap, List.mem_flatMap] at hl
  obtain ⟨t, ht, hl⟩ := hl
  refine h l ?_
  rw [allLexemes_eq_flatMap]
  exact List.mem_flatMap.2 ⟨t, List.mem_reverse.1 ht, hl⟩

/-- The characters of some trees. -/
def sourceLength (ts : List TokenTree) : Nat := (ts.flatMap source).length

theorem sourceLength_cons (t : TokenTree) (ts : List TokenTree) :
    sourceLength (t :: ts) = t.source.length + sourceLength ts := by
  rw [sourceLength, List.flatMap_cons, List.length_append, sourceLength]

theorem sourceLength_reverse (ts : List TokenTree) : sourceLength ts.reverse = sourceLength ts := by
  simp [sourceLength, List.length_flatMap, List.sum_reverse]

theorem sourceLength_leaf_cons (l : Lexeme) (ts : List TokenTree) :
    sourceLength (leaf l :: ts) = l.source.length + sourceLength ts := by
  simp [sourceLength, source, lexemes]

/-- A block is at least its bracket and what is inside. -/
theorem le_sourceLength_block_cons (l : Lexeme) (us : List TokenTree) (closer : Option Lexeme)
    (ts : List TokenTree) : l.source.length + sourceLength us + sourceLength ts ≤
      sourceLength (block l us closer :: ts) := by
  rw [sourceLength_cons, source_block, List.length_append, List.length_append, sourceLength]
  omega

theorem sourceLength_forest (cs : List Char) : sourceLength (forest cs) = cs.length := by
  rw [sourceLength, source_forest]

end TokenTree

namespace Component

/-- A block is one component, with those that are read inside of it. -/
theorem allCount_ofTree_block_le {opener : Lexeme} {contents : List TokenTree}
    {closer : Option Lexeme} {found : Option Component} {n : Nat}
    (h : ofTree (block opener contents closer) = .ok found)
    (hcontents : ∀ v, ofForest contents = .ok v → allCount v ≤ n) :
    allCount found.toList ≤ 1 + n := by
  have htrim (v : Value) (hv : ofForest contents = .ok v) : allCount v.trim ≤ n :=
    Nat.le_trans (allCount_le_of_sublist v.trim_sublist) (hcontents v hv)
  rw [ofTree] at h
  split at h
  · rename_i name _
    obtain ⟨v, hv, h⟩ := bind_eq_ok h
    have := htrim v hv
    have := count_call_le name v.trim
    cases closer with
    | none => cases h
    | some closer =>
      cases h
      rw [Option.toList_some, allCount, allCount]
      omega
  · obtain ⟨v, hv, h⟩ := bind_eq_ok h
    have := htrim v hv
    cases closer with
    | none => cases h
    | some closer =>
      cases h
      rw [Option.toList_some, allCount, allCount, count]
      omega
  · cases h
    exact Nat.le_add_right _ _

/-- The components of some trees are not more than the characters of the trees. -/
theorem allCount_le_sourceLength {ts : List TokenTree} {v : Value} (hts : AllSourced ts)
    (h : ofForest ts = .ok v) : allCount v ≤ sourceLength ts := by
  induction ts using forestInduction generalizing v with
  | nil =>
    cases h
    exact Nat.zero_le _
  | leaf l ts ih =>
    obtain ⟨hl, hrest⟩ := allSourced_leaf_cons.1 hts
    obtain ⟨found, hfound, h⟩ := bind_eq_ok h
    obtain ⟨w, hw, h⟩ := bind_eq_ok h
    cases h
    have hone := allCount_ofLexeme_le hfound
    have hpos := List.length_pos_iff.2 hl
    have := ih hrest hw
    rw [allCount_append, sourceLength_leaf_cons]
    omega
  | block opener contents closer ts ihc ih =>
    obtain ⟨hl, hcontents, hrest⟩ := hts.of_block
    obtain ⟨found, hfound, h⟩ := bind_eq_ok h
    obtain ⟨w, hw, h⟩ := bind_eq_ok h
    cases h
    have hpos := List.length_pos_iff.2 hl
    have hblock := le_sourceLength_block_cons opener contents closer ts
    have := ih hrest hw
    have hone : allCount found.toList ≤ 1 + sourceLength contents :=
      allCount_ofTree_block_le hfound fun v hv => ihc hcontents hv
    rw [allCount_append]
    omega

end Component

namespace Value

/-- The components of a value are not more than the characters of its text. -/
theorem allCount_le_length {cs : List Char} {v : Value} (h : Value.read cs = .ok v) :
    Component.allCount v ≤ cs.length := by
  obtain ⟨w, hw, rfl⟩ := map_eq_ok h
  refine Nat.le_trans (Component.allCount_le_of_sublist (trim_sublist w)) ?_
  rw [← sourceLength_forest cs]
  exact Component.allCount_le_sourceLength (allSourced_forest cs) hw

/-- What is left in front of a mark of importance is a part of the value. -/
theorem beforeImportant_sublist {v before : Value} (h : v.beforeImportant = some before) :
    before.Sublist v := by
  rw [← List.reverse_sublist]
  unfold beforeImportant at h
  split at h
  · rename_i name behind hv
    split at h
    · split at h
      · rename_i rest hrest
        cases h
        have hfront : rest.Sublist behind :=
          (List.sublist_cons_self _ rest).trans (hrest ▸ List.dropWhile_sublist _)
        have hdrop := List.reverse_sublist.2 (dropEndBlanks_sublist rest.reverse)
        rw [List.reverse_reverse] at hdrop
        rw [hv]
        exact (hdrop.trans hfront).trans (List.sublist_cons_self _ _)
      · cases h
    · cases h
  · cases h

end Value

/-! ## Nodes -/

namespace Node

mutual

/-- The node, the nodes inside of it and the components of their values, at all depths. -/
def count : Node → Nat
  | rule _ children => 1 + allCount children
  | atRule _ _ none => 1
  | atRule _ _ (some children) => 1 + allCount children
  | declaration d => 1 + Component.allCount d.value
  | comment _ | raw _ => 1
termination_by structural n => n

/-- Nodes in a row and components, at all depths. -/
def allCount : List Node → Nat
  | [] => 0
  | n :: ns => count n + allCount ns
termination_by structural ns => ns

end

theorem allCount_append (ns ms : List Node) : allCount (ns ++ ms) = allCount ns + allCount ms := by
  induction ns with
  | nil => exact (Nat.zero_add _).symm
  | cons n ns ih => rw [List.cons_append, allCount, allCount, ih, Nat.add_assoc]

end Node

/-- A declaration has no more components than the text of its value has characters. -/
theorem Declaration.allCount_le_length {property value : List Char} {start : Nat} {d : Declaration}
    (h : Declaration.read property value start = .ok d) :
    Component.allCount d.value ≤ value.length := by
  unfold Declaration.read at h
  split at h
  · cases h
  · rename_i v hv
    have hle := Value.allCount_le_length hv
    dsimp only at h
    split at h
    · rename_i before hbefore
      cases h
      exact Nat.le_trans
        (Component.allCount_le_of_sublist (Value.beforeImportant_sublist hbefore)) hle
    · cases h
      exact hle

namespace Phrase

theorem length_text_behind (cs : List Char) (p : Phrase) :
    (p.behind cs).text.length = cs.length + p.text.length := by
  obtain ⟨head, tail⟩ := p
  cases tail <;> simp [behind, text]

theorem length_text_behindColon (p : Phrase) : p.behindColon.text.length = 1 + p.text.length := by
  simp [behindColon, text, Nat.add_comm]

/-- A lexeme adds no more to a phrase than its own text. -/
theorem length_text_putLeaf_le {l : Lexeme} {put : Phrase → Phrase} (hl : l.source ≠ [])
    (h : putLeaf l = .ok put) (p : Phrase) :
    (put p).text.length ≤ l.source.length + p.text.length := by
  unfold putLeaf at h
  split at h
  case h_1 => cases h; exact Nat.le_add_left _ _
  case h_2 => split at h <;> cases h; exact Nat.le_add_left _ _
  case h_3 => cases h
  case h_4 => split at h <;> cases h; exact Nat.le_of_eq (length_text_behind _ _)
  case h_5 =>
    cases h
    rw [length_text_behindColon]
    exact Nat.add_le_add_right (List.length_pos_iff.2 hl) _
  case h_6 => cases h; exact Nat.le_of_eq (length_text_behind _ _)

/-- The text of a phrase is not longer than the text of its trees. -/
theorem length_text_le {ts : List TokenTree} {p : Phrase} (hts : AllSourced ts)
    (h : ofTrees ts = .ok p) : p.text.length ≤ sourceLength ts := by
  induction ts generalizing p with
  | nil =>
    cases h
    exact Nat.zero_le _
  | cons t ts ih =>
    cases t with
    | leaf l =>
      obtain ⟨hl, hrest⟩ := allSourced_leaf_cons.1 hts
      rw [ofTrees_cons_leaf] at h
      obtain ⟨put, hput, h⟩ := bind_eq_ok h
      obtain ⟨q, hq, rfl⟩ := map_eq_ok h
      have := length_text_putLeaf_le hl hput q
      have := ih hrest hq
      rw [sourceLength_leaf_cons]
      omega
    | block opener contents closer =>
      rw [ofTrees] at h
      split at h
      · obtain ⟨q, hq, rfl⟩ := map_eq_ok h
        have := ih hts.of_block.2.2 hq
        rw [length_text_behind, sourceLength_cons]
        omega
      · cases h

end Phrase

namespace Pending

/-- The text that a statement has taken so far; the name of an at-rule counts as one character. -/
def taken (p : Pending) : Nat :=
  match p.opening with
  | .atRule _ => 1 + sourceLength p.trees
  | .plain _ => sourceLength p.trees

/-- A statement takes one more tree. -/
theorem taken_cons (p : Pending) (t : TokenTree) :
    (Pending.mk p.opening (t :: p.trees)).taken = t.source.length + p.taken := by
  obtain ⟨opening, trees⟩ := p
  have hcons := sourceLength_cons t trees
  cases opening with
  | atRule name =>
    dsimp only [taken]
    omega
  | plain start => exact hcons

/-- The node of a statement's text is not more than the text. -/
theorem allCount_finish_le {opening : Opening} {p : Phrase} {node : Option Node} {n : Nat}
    (hp : p.text.length ≤ n) (h : finish opening p = .ok node) :
    Node.allCount node.toList ≤ (Pending.mk opening []).taken + n := by
  unfold finish at h
  split at h
  · cases h
    exact Nat.le_add_right 1 n
  · rename_i start
    dsimp only at h
    split at h
    · cases h
      exact Nat.zero_le _
    · rename_i hempty
      have hpos : 0 < p.text.length := by
        refine List.length_pos_iff.2 fun htext => hempty ?_
        rw [htext]
        rfl
      have hone : 1 ≤ (Pending.mk (.plain start) []).taken + n :=
        Nat.le_trans hpos (Nat.le_trans hp (Nat.le_add_left _ _))
      split at h
      · rename_i value htail
        split at h
        · cases h
          exact hone
        · obtain ⟨d, hd, rfl⟩ := map_eq_ok h
          have hvalue := Declaration.allCount_le_length hd
          -- the colon in front of the value counts for the declaration
          have htext : 1 + value.length ≤ p.text.length := by
            simp [Phrase.text, htail]
            omega
          rw [Option.toList_some, Node.allCount, Node.allCount, Node.count]
          omega
      · cases h
        exact hone

/-- The node of a statement without a block is not more than the statement's text. -/
theorem allCount_close_le {p : Pending} {node : Option Node} (hp : AllSourced p.trees)
    (h : p.close = .ok node) : Node.allCount node.toList ≤ p.taken := by
  rw [close_eq] at h
  obtain ⟨phrase, hphrase, h⟩ := bind_eq_ok h
  have htext := Phrase.length_text_le hp.reverse hphrase
  rw [sourceLength_reverse] at htext
  have hle := allCount_finish_le htext h
  obtain ⟨opening, trees⟩ := p
  cases opening <;> simpa [taken, sourceLength] using hle

end Pending

namespace Node

/-- A statement with a block is one node, with those inside of the block. -/
theorem count_withBlock (opening : Opening) (phrase : Phrase) (children : List Node) :
    (Pending.withBlock opening phrase children).count = 1 + allCount children := by
  cases opening <;> rfl

end Node

namespace Sheet

/-- The text that has been taken by a statement, if one has begun. -/
def begun : Option Pending → Nat
  | none => 0
  | some p => p.taken

theorem taken_pendingAt (pending : Option Pending) (opener : Lexeme) :
    (pendingAt pending opener).taken = begun pending := by
  cases pending <;> rfl

/-- What is read is not more than the characters that it is read from. -/
theorem Reads.allCount_le {pending : Option Pending} {ts : List TokenTree} {ns : List Node}
    (h : Reads pending ts ns) (hts : AllSourced ts) (hpending : ∀ p ∈ pending, AllSourced p.trees) :
    Node.allCount ns ≤ begun pending + sourceLength ts := by
  -- what a pending statement has taken is counted with it until the statement is closed
  induction h with
  | done => exact Nat.zero_le _
  | @finish p _ hclose => exact Pending.allCount_close_le (hpending p rfl) hclose
  | gap _ _ ih =>
    have := ih (allSourced_leaf_cons.1 hts).2 fun _ hp => nomatch hp
    rw [sourceLength_leaf_cons]
    omega
  | comment _ _ _ ih =>
    obtain ⟨hl, hrest⟩ := allSourced_leaf_cons.1 hts
    have := ih hrest fun _ hp => nomatch hp
    have := List.length_pos_iff.2 hl
    rw [sourceLength_leaf_cons, Node.allCount, Node.count]
    omega
  | @atRule l name ts ns _ _ ih =>
    obtain ⟨hl, hrest⟩ := allSourced_leaf_cons.1 hts
    have := ih hrest fun p hp => by cases hp; exact allSourced_nil
    have hname : begun (some ⟨.atRule name, []⟩) = 1 := rfl
    have := List.length_pos_iff.2 hl
    rw [sourceLength_leaf_cons]
    omega
  | @plain l ts ns _ _ ih =>
    obtain ⟨hl, hrest⟩ := allSourced_leaf_cons.1 hts
    have := ih hrest fun p hp => by cases hp; exact allSourced_leaf_cons.2 ⟨hl, allSourced_nil⟩
    have hfirst : begun (some ⟨.plain l.start, [leaf l]⟩) = l.source.length :=
      sourceLength_leaf_cons l []
    rw [sourceLength_leaf_cons]
    omega
  | @stop p l node ts ns _ hclose _ ih =>
    have := ih (allSourced_leaf_cons.1 hts).2 fun _ hp => nomatch hp
    have := Pending.allCount_close_le (hpending p rfl) hclose
    rw [Node.allCount_append, sourceLength_leaf_cons]
    dsimp only [begun] at *
    omega
  | @more p l ts ns _ _ ih =>
    obtain ⟨hl, hrest⟩ := allSourced_leaf_cons.1 hts
    have := ih hrest fun q hq => by
      cases hq
      exact allSourced_leaf_cons.2 ⟨hl, hpending p rfl⟩
    have hmore : begun (some ⟨p.opening, leaf l :: p.trees⟩) =
        (leaf l).source.length + begun (some p) := p.taken_cons (leaf l)
    rw [sourceLength_cons]
    omega
  | @block pending opener closer contents ts phrase children ns _ _ _ _ ihc ih =>
    obtain ⟨hl, hcontents, hrest⟩ := hts.of_block
    have := ihc hcontents fun _ hp => nomatch hp
    have := ih hrest fun _ hp => nomatch hp
    have := List.length_pos_iff.2 hl
    have := le_sourceLength_block_cons opener contents (some closer) ts
    rw [Node.allCount, Node.count_withBlock]
    dsimp only [begun] at *
    omega
  | @brackets pending opener closer contents ts ns _ _ ih =>
    obtain ⟨hblock, hrest⟩ := allSourced_cons.1 hts
    have := ih hrest fun q hq => by
      cases hq
      refine allSourced_cons.2 ⟨hblock, ?_⟩
      cases pending with
      | none => exact allSourced_nil
      | some p => exact hpending p rfl
    have hmore := (pendingAt pending opener).taken_cons (.block opener contents closer)
    rw [taken_pendingAt] at hmore
    rw [sourceLength_cons]
    change _ ≤ Pending.taken _ + _ at this
    omega

/-- The nodes of a sheet and the components of their values, at all depths, are not more than the
characters of its text. -/
theorem allCount_le_length {cs : List Char} {s : Sheet} (h : read cs = .ok s) :
    Node.allCount s ≤ cs.length := by
  have hle := (reads_of_readTrees h).allCount_le (allSourced_forest cs) fun _ hp => nomatch hp
  rwa [sourceLength_forest, begun, Nat.zero_add] at hle

end Sheet

end CssPruning
