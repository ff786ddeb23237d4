import CssPruning.Proofs.Sheet.Comments
import CssPruning.Proofs.Sheet.RoundTrip
import CssPruning.Proofs.Sheet.Scanned
import CssPruning.Proofs.Text.Trim
import CssPruning.Proofs.Token.Steady

/-!
# Well-formed nodes

Selectors, preludes, properties and raw text are trimmed when a statement ends, and a
statement of which nothing is left by that is no node, or one without a prelude
(`Sheet.wellFormed_finish`, `Sheet.wellFormed_withBlock`).  The names of at-rules and the
comments are those of the lexemes (`isSound_of_mem_tokenizeFrom`).  So the nodes that are read are
well formed at any depth, whatever the text (`Sheet.wellFormed_of_parse`).
-/

set_option autoImplicit false

namespace CssPruning

open Text Token TokenTree

/-- What the reader makes sure of for a node on its own. -/
def Node.WellFormed : Node → Prop
  | rule selector _ => trimmed selector = selector
  | atRule name prelude _ =>
    name ≠ "" ∧ ∀ text ∈ prelude, text ≠ "" ∧ trimmed text = text
  | declaration d => d.property ≠ "" ∧ trimmed d.property = d.property
  | comment text => ¬ ['*', '/'] <:+: text.toList
  | raw text => text ≠ "" ∧ trimmed text = text

instance (n : Node) : Decidable n.WellFormed :=
  match n with
  | .rule selector _ => inferInstanceAs (Decidable (trimmed selector = selector))
  | .atRule name prelude _ => inferInstanceAs
    (Decidable (name ≠ "" ∧ ∀ text ∈ prelude, text ≠ "" ∧ trimmed text = text))
  | .declaration d => inferInstanceAs
    (Decidable (d.property ≠ "" ∧ trimmed d.property = d.property))
  | .comment text => inferInstanceAs (Decidable (¬ ['*', '/'] <:+: text.toList))
  | .raw text => inferInstanceAs (Decidable (text ≠ "" ∧ trimmed text = text))

/-! ## Lexemes -/

namespace Token

/-- The name of an at-rule is there, and a comment has no closing mark in it. -/
def IsSound : Token → Prop
  | .atKeyword name => name ≠ ""
  | .comment text => ¬ ['*', '/'] <:+: text.toList
  | _ => True

theorem value_name_ne_nil {cs : List Char} (h : startsName cs = true) : (name cs).value ≠ [] :=
  fun hnil => source_name_ne_nil h (by rw [name_of_value_eq_nil hnil])

/-- The name of an at-rule stands right behind its mark. -/
theorem ne_empty_of_value_next {c : Char} {cs : List Char} {text : String}
    (h : (next c cs).value = .atKeyword text) : text ≠ "" := by
  have hmark := value_mark_of_value_next rfl Token.noConfusion h
  have htext := (mark_of_named (.inr hmark)).1
  revert hmark
  fun_cases mark c cs with
  | case1 =>
    intro hmark
    simp only [Scan.behind, Scan.map] at hmark
    split at hmark <;> cases hmark
  | case3 _ _ _ _ hstarts =>
    intro _ hempty
    obtain ⟨-, hstarts⟩ := Bool.and_eq_true_iff.1 hstarts
    rw [hempty] at htext
    exact value_name_ne_nil hstarts (String.ofList_eq_empty_iff.1 htext.symm)
  | case7 c | case8 c =>
    intro hmark
    have hkind := kind_single c
    change single c = .atKeyword text at hmark
    rw [hmark] at hkind
    cases hkind
  | _ =>
    intro hmark
    cases hmark

end Token

theorem isSound_of_mem_tokenizeFrom {start : Nat} {cs : List Char} {l : Lexeme}
    (h : l ∈ tokenizeFrom start cs) : l.token.IsSound := by
  obtain ⟨c, ds, hnext⟩ := exists_next_of_mem_tokenizeFrom h
  cases htoken : l.token with
  | atKeyword name => exact ne_empty_of_value_next (hnext.symm.trans htoken)
  | comment text => exact no_closing_mark_of_mem_tokenizeFrom h htoken
  | _ => trivial

namespace Sheet

/-! ## Statements -/

/-- A statement that begins with a name begins with one that is not empty. -/
def Named : Opening → Prop
  | .atRule name => name ≠ ""
  | .plain _ => True

theorem trimmed_ofList_trim (cs : List Char) :
    trimmed (String.ofList (trim cs)) = String.ofList (trim cs) := by
  rw [trimmed, String.toList_ofList, trim_eq_self (flush_trim cs)]

theorem ofList_ne_empty {cs : List Char} (h : ¬ cs.isEmpty = true) : String.ofList cs ≠ "" := by
  rw [Ne, String.ofList_eq_empty_iff, ← List.isEmpty_iff]
  exact h

theorem wellFormed_prelude {phrase : Phrase} {text : String}
    (h : text ∈ Pending.prelude phrase) : text ≠ "" ∧ trimmed text = text := by
  rw [Pending.prelude] at h
  split at h
  · cases h
  · rename_i hne
    cases h
    exact ⟨ofList_ne_empty hne, trimmed_ofList_trim _⟩

theorem property_of_read {property value : List Char} {start : Nat} {d : Declaration}
    (h : Declaration.read property value start = .ok d) :
    d.property = String.ofList (trim property) := by
  unfold Declaration.read at h
  split at h
  · cases h
  · dsimp only at h
    split at h <;> cases h <;> rfl

/-- A statement that ends without a block. -/
theorem wellFormed_finish {opening : Opening} {phrase : Phrase} {node : Option Node}
    (hnamed : Named opening) (h : Pending.finish opening phrase = .ok node) :
    ∀ n ∈ node, n.WellFormed := by
  revert h
  fun_cases Pending.finish opening phrase with
  | case1 name =>
    rintro ⟨⟩ _ ⟨⟩
    exact ⟨hnamed, fun text => wellFormed_prelude⟩
  | case2 =>
    rintro ⟨⟩ _ ⟨⟩
  | case4 start text _ value _ hhead =>
    intro h
    obtain ⟨d, hd, rfl⟩ := map_eq_ok h
    rintro _ ⟨⟩
    rw [Node.WellFormed, property_of_read hd]
    exact ⟨ofList_ne_empty hhead, trimmed_ofList_trim _⟩
  | case3 start text hne | case5 start text hne =>
    rintro ⟨⟩ _ ⟨⟩
    exact ⟨ofList_ne_empty hne, trimmed_ofList_trim _⟩

/-- A statement that ends in a block, and what is in the block. -/
theorem wellFormed_withBlock {opening : Opening} {phrase : Phrase} {children : List Node}
    (hnamed : Named opening) (hchildren : ∀ n ∈ Node.allSubnodes children, n.WellFormed) :
    ∀ n ∈ (Pending.withBlock opening phrase children).subnodes, n.WellFormed := by
  cases opening with
  | atRule name =>
    rw [Pending.withBlock, Node.subnodes, List.forall_mem_cons]
    exact ⟨⟨hnamed, fun text => wellFormed_prelude⟩, hchildren⟩
  | plain start =>
    rw [Pending.withBlock, Node.subnodes, List.forall_mem_cons]
    exact ⟨trimmed_ofList_trim _, hchildren⟩

theorem wellFormed_close {p : Pending} {node : Option Node} (hnamed : Named p.opening)
    (h : p.close = .ok node) : ∀ n ∈ Node.allSubnodes node.toList, n.WellFormed := by
  obtain ⟨-, phrase, -, -, hfinish⟩ := Scanned.exists_cut_of_close h
  rw [(allSubnodes_close h).1]
  simpa using wellFormed_finish hnamed hfinish

/-! ## Sheets -/

/-- What sound lexemes spell is well formed. -/
theorem Reads.wellFormed {pending : Option Pending} {ts : List TokenTree} {ns : List Node}
    (h : Reads pending ts ns) (hsound : ∀ l ∈ allLexemes ts, l.token.IsSound)
    (hnamed : ∀ p ∈ pending, Named p.opening) : ∀ n ∈ Node.allSubnodes ns, n.WellFormed := by
  have hpendingAt : ∀ {opener : Lexeme} {pending : Option Pending},
      (∀ p ∈ pending, Named p.opening) → Named (pendingAt pending opener).opening := by
    intro opener pending hnamed
    cases pending with
    | none => trivial
    | some p => exact hnamed p rfl
  -- the lexemes of the trees to come are lexemes of the forest
  have htail : ∀ {t : TokenTree} {ts : List TokenTree},
      (∀ l ∈ allLexemes (t :: ts), l.token.IsSound) → ∀ l ∈ allLexemes ts, l.token.IsSound :=
    fun hsound l hl => hsound l (List.mem_append_right _ hl)
  have hnone : ∀ p ∈ (none : Option Pending), Named p.opening := by
    rintro p ⟨⟩
  induction h with
  | done =>
    intro n hn
    cases hn
  | finish hclose => exact wellFormed_close (hnamed _ rfl) hclose
  | gap _ _ ih => exact ih (htail hsound) hnone
  | comment htoken _ _ ih =>
    have hhead := hsound _ (List.mem_append_left _ List.mem_cons_self)
    rw [htoken] at hhead
    rw [Node.allSubnodes, Node.subnodes, List.singleton_append, List.forall_mem_cons]
    exact ⟨hhead, ih (htail hsound) hnone⟩
  | atRule htoken _ ih =>
    have hhead := hsound _ (List.mem_append_left _ List.mem_cons_self)
    rw [htoken] at hhead
    refine ih (htail hsound) ?_
    rintro _ ⟨⟩
    exact hhead
  | plain _ _ ih =>
    refine ih (htail hsound) ?_
    rintro _ ⟨⟩
    trivial
  | stop _ hclose _ ih =>
    rw [Node.allSubnodes_append, List.forall_mem_append]
    exact ⟨wellFormed_close (hnamed _ rfl) hclose, ih (htail hsound) hnone⟩
  | more _ _ ih =>
    have hopening := hnamed _ rfl
    refine ih (htail hsound) ?_
    rintro _ ⟨⟩
    exact hopening
  | block _ _ _ _ ihc ih =>
    rw [Node.allSubnodes, List.forall_mem_append]
    refine ⟨wellFormed_withBlock (hpendingAt hnamed) (ihc (fun l hl => hsound l ?_) hnone),
      ih (htail hsound) hnone⟩
    exact List.mem_append_left _ (List.mem_cons_of_mem _ (List.mem_append_left _ hl))
  | brackets _ _ ih =>
    refine ih (htail hsound) ?_
    rintro _ ⟨⟩
    exact hpendingAt hnamed

/-- The nodes of a sheet that was read, at any depth, are well formed. -/
theorem wellFormed_of_parse {text : String} {s : Sheet} (h : parse text = .ok s) :
    ∀ n ∈ Node.allSubnodes s, n.WellFormed := by
  rw [parse_eq_ok_iff, read, readTrees_eq_ok_iff] at h
  refine h.wellFormed (fun l hl => ?_) (by rintro p ⟨⟩)
  rw [lexemes_forest] at hl
  exact isSound_of_mem_tokenizeFrom hl

/-- A stray bracket, blanks on both sides of a prelude and a property, a text without a
colon, and a comment. -/
theorem wellFormed_of_parse_strayBracket :
    ∃ s, parse "\x7d@media  x \x7b a :b; c \x7d/*d*/" = .ok s ∧
      ∀ n ∈ Node.allSubnodes s, n.WellFormed := by
  obtain ⟨s, hs⟩ := exists_parse_eq_ok
    (show (parse "\x7d@media  x \x7b a :b; c \x7d/*d*/").isOk = true by decide +kernel)
  exact ⟨s, hs, wellFormed_of_parse hs⟩

end Sheet

end CssPruning
