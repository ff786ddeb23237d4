import CssPruning.Proofs.Sheet.Forest
import CssPruning.Proofs.Sheet.Reading

/-!
# The comments of a sheet

The text of a comment runs to the first closing mark, so that there is none in it.
The reader takes comments from the lexemes of the text as they are, whence no
comment of a sheet that was read has a closing mark in it
(`no_closing_mark_of_read`).
-/

set_option autoImplicit false

namespace CssPruning

namespace Token

/-! ## Comments as lexemes -/

theorem value_prefix_commentBody (cs : List Char) : (commentBody cs).value <+: cs := by
  fun_induction commentBody cs with
  | case1 => exact List.prefix_refl _
  | case2 => exact List.nil_prefix
  | case3 c cs _ ih => exact List.cons_prefix_cons.2 ⟨rfl, ih⟩

/-- A comment has no closing mark in it. -/
theorem no_closing_mark_commentBody (cs : List Char) :
    ¬ ['*', '/'] <:+: (commentBody cs).value := by
  fun_induction commentBody cs with
  | case1 => simp
  | case2 => simp
  | case3 c cs hmark ih =>
    intro hinfix
    rcases List.infix_cons_iff.1 hinfix with hhead | htail
    · -- the star would have been the mark's, for the slash stands behind it in the text
      obtain ⟨hc, hslash⟩ := List.cons_prefix_cons.1 hhead
      obtain ⟨rest, hrest⟩ := hslash.trans (value_prefix_commentBody cs)
      exact hmark rest hc.symm hrest.symm
    · exact ih htail

/-- What is read by none of the other scanners is read as a mark. -/
theorem value_mark_of_value_next {c : Char} {cs : List Char} {t : Token} (hlong : kind t = .long)
    (hhiding : t ≠ .hidingMark) (h : (next c cs).value = t) : (mark c cs).value = t := by
  revert h
  fun_cases next c cs with
  | case1 =>
    rintro rfl
    cases hlong
  | case2 =>
    rintro rfl
    rw [kind_numeral] at hlong
    cases hlong
  | case3 => exact fun h => absurd h.symm hhiding
  | case4 =>
    rintro rfl
    rw [kind_nameOrFunction] at hlong
    cases hlong
  | case5 => exact id

theorem exists_commentBody_of_value_next {c : Char} {cs : List Char} {text : String}
    (h : (next c cs).value = .comment text) :
    ∃ rest, text = String.ofList (commentBody rest).value := by
  have hmark := value_mark_of_value_next rfl Token.noConfusion h
  revert hmark
  fun_cases mark c cs with
  | case1 =>
    intro hmark
    simp only [Scan.behind, Scan.map] at hmark
    split at hmark <;> cases hmark
  | case4 rest => exact fun hmark => ⟨_, (Token.comment.inj hmark).symm⟩
  | case7 c | case8 c =>
    intro hmark
    have hkind := kind_single c
    change single c = .comment text at hmark
    rw [hmark] at hkind
    cases hkind
  | _ =>
    intro hmark
    cases hmark

end Token

open Token TokenTree

/-- Every lexeme is the next one somewhere in the text. -/
theorem exists_next_of_mem_tokenizeFrom {start : Nat} {cs : List Char} {l : Lexeme}
    (h : l ∈ tokenizeFrom start cs) : ∃ c ds, l.token = (next c ds).value := by
  fun_induction tokenizeFrom start cs with
  | case1 => cases h
  | case2 start c cs s _ ih =>
    rcases List.mem_cons.1 h with rfl | h
    · exact ⟨c, cs, rfl⟩
    · exact ih h

theorem no_closing_mark_of_mem_tokenizeFrom {start : Nat} {cs : List Char} {l : Lexeme}
    {text : String} (hl : l ∈ tokenizeFrom start cs) (htext : l.token = .comment text) :
    ¬ ['*', '/'] <:+: text.toList := by
  obtain ⟨c, ds, hnext⟩ := exists_next_of_mem_tokenizeFrom hl
  obtain ⟨rest, rfl⟩ := exists_commentBody_of_value_next (hnext.symm.trans htext)
  rw [String.toList_ofList]
  exact no_closing_mark_commentBody rest

namespace Sheet

/-! ## Comments as nodes -/

/-- A statement that ends without a block spells no comment, and nothing with
children. -/
theorem allSubnodes_close {p : Pending} {node : Option Node} (h : p.close = .ok node) :
    Node.allSubnodes node.toList = node.toList ∧ ∀ n ∈ node, n.isComment = false := by
  unfold Pending.close at h
  obtain ⟨phrase, -, h⟩ := bind_eq_ok h
  split at h
  · cases h
    exact ⟨rfl, by simp [Node.isComment]⟩
  · simp only at h
    split at h
    · cases h
      exact ⟨rfl, by simp⟩
    · split at h
      · split at h
        · cases h
          exact ⟨rfl, by simp [Node.isComment]⟩
        · obtain ⟨d, -, h⟩ := bind_eq_ok h
          cases h
          exact ⟨rfl, by simp [Node.isComment]⟩
      · cases h
        exact ⟨rfl, by simp [Node.isComment]⟩

/-- Every comment of the nodes is a lexeme of the forest that spells them. -/
theorem Reads.exists_lexeme_of_comment {pending : Option Pending} {ts : List TokenTree}
    {ns : List Node} {text : String} (h : Reads pending ts ns)
    (htext : .comment text ∈ Node.allSubnodes ns) :
    ∃ l ∈ allLexemes ts, l.token = .comment text := by
  have hclose : ∀ {p : Pending} {node : Option Node}, p.close = .ok node →
      .comment text ∉ Node.allSubnodes node.toList := by
    intro p node hclose hmem
    obtain ⟨hsubnodes, hcomment⟩ := allSubnodes_close hclose
    rw [hsubnodes, Option.mem_toList] at hmem
    cases hcomment _ hmem
  -- what is found in a part of the forest is found in the whole
  have hcons : ∀ {t : TokenTree} {ts : List TokenTree},
      (∃ l ∈ allLexemes ts, l.token = .comment text) →
      ∃ l ∈ allLexemes (t :: ts), l.token = .comment text := by
    rintro t ts ⟨l, hl, htoken⟩
    exact ⟨l, List.mem_append_right _ hl, htoken⟩
  induction h with
  | done => cases htext
  | finish h => exact absurd htext (hclose h)
  | gap _ _ ih => exact hcons (ih htext)
  | @comment l text' ts ns htoken _ _ ih =>
    rw [Node.allSubnodes, List.mem_append] at htext
    rcases htext with htext | htext
    · rw [Node.subnodes, List.mem_singleton] at htext
      cases htext
      exact ⟨l, List.mem_append_left _ List.mem_cons_self, htoken⟩
    · exact hcons (ih htext)
  | atRule _ _ ih => exact hcons (ih htext)
  | plain _ _ ih => exact hcons (ih htext)
  | stop _ h _ ih =>
    rw [Node.allSubnodes_append, List.mem_append] at htext
    rcases htext with htext | htext
    · exact absurd htext (hclose h)
    · exact hcons (ih htext)
  | more _ _ ih => exact hcons (ih htext)
  | @block pending opener closer contents ts phrase children ns _ _ _ _ ihc ih =>
    rw [Node.allSubnodes, List.mem_append] at htext
    rcases htext with htext | htext
    · have hchildren : .comment text ∈ Node.allSubnodes children := by
        unfold Pending.withBlock at htext
        split at htext
        · exact (List.mem_cons.1 htext).resolve_left Node.noConfusion
        · exact (List.mem_cons.1 htext).resolve_left Node.noConfusion
      obtain ⟨l, hl, htoken⟩ := ihc hchildren
      refine ⟨l, List.mem_append_left _ ?_, htoken⟩
      exact List.mem_cons_of_mem _ (List.mem_append_left _ hl)
    · exact hcons (ih htext)
  | brackets _ _ ih => exact hcons (ih htext)

/-- No comment of a sheet that was read has a closing mark in it. -/
theorem no_closing_mark_of_read {cs : List Char} {s : Sheet} {text : String}
    (h : read cs = .ok s) (htext : .comment text ∈ Node.allSubnodes s) :
    ¬ ['*', '/'] <:+: text.toList := by
  rw [read, readTrees_eq_ok_iff] at h
  obtain ⟨l, hl, htoken⟩ := h.exists_lexeme_of_comment htext
  rw [lexemes_forest] at hl
  exact no_closing_mark_of_mem_tokenizeFrom hl htoken

end Sheet

end CssPruning
