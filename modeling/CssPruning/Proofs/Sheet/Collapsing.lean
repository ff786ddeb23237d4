import CssPruning.Proofs.Sheet.Comments
import CssPruning.Proofs.Sheet.RoundTrip
import CssPruning.Proofs.Token.Steady

/-!
# Writing the preludes of at-rules

The prelude of an at-rule is written with its runs of blanks collapsed, on the text and
not on the lexemes.  The prelude of a sheet that was read is trimmed
(`flush_of_mem_allAtRules`), so that what is collapsed is squeezed, and it is written
with the tokens that it was read with exactly if its lexemes are steady
(`tokenValues_canonicalPrelude_iff`).
-/

set_option autoImplicit false

namespace CssPruning

open Token Text

namespace Sheet

/-! ## Preludes are trimmed -/

theorem flush_of_prelude {phrase : Phrase} {p : String} (h : Pending.prelude phrase = some p) :
    Flush p.toList := by
  rw [Pending.prelude] at h
  split at h
  · cases h
  · cases h
    rw [String.toList_ofList]
    exact flush_trim _

theorem allAtRules_close {q : Pending} {node : Option Node} (h : q.close = .ok node) :
    Node.allAtRules node.toList = [] ∨ ∃ name phrase,
      Node.allAtRules node.toList = [⟨name, Pending.prelude phrase, none⟩] := by
  unfold Pending.close at h
  obtain ⟨phrase, -, h⟩ := bind_eq_ok h
  split at h
  · cases h
    exact .inr ⟨_, phrase, rfl⟩
  · left
    simp only at h
    split at h
    · cases h
      rfl
    · split at h
      · split at h
        · cases h
          rfl
        · obtain ⟨d, -, h⟩ := bind_eq_ok h
          cases h
          rfl
      · cases h
        rfl

theorem allAtRules_withBlock (opening : Opening) (phrase : Phrase) (children : List Node) :
    Node.atRules (Pending.withBlock opening phrase children) = Node.allAtRules children ∨
    ∃ name, Node.atRules (Pending.withBlock opening phrase children) =
      ⟨name, Pending.prelude phrase, some children⟩ :: Node.allAtRules children := by
  cases opening with
  | atRule name => exact .inr ⟨name, rfl⟩
  | plain => exact .inl rfl

theorem Reads.flush_of_mem_allAtRules {pending : Option Pending} {ts : List TokenTree}
    {ns : List Node} {r : AtRule} {p : String} (h : Reads pending ts ns)
    (hr : r ∈ Node.allAtRules ns) (hp : r.prelude = some p) : Flush p.toList := by
  have hclose {q : Pending} {node : Option Node} (h : q.close = .ok node)
      (hr : r ∈ Node.allAtRules node.toList) : Flush p.toList := by
    rcases allAtRules_close h with hnil | ⟨name, phrase, hsingle⟩
    · rw [hnil] at hr
      cases hr
    · rw [hsingle, List.mem_singleton] at hr
      exact flush_of_prelude (hr ▸ hp)
  induction h with
  | done => cases hr
  | finish h => exact hclose h hr
  | gap _ _ ih | atRule _ _ ih | plain _ _ ih | more _ _ ih | brackets _ _ ih => exact ih hr
  | comment _ _ _ ih => exact ih hr
  | stop _ h _ ih =>
    rw [Node.allAtRules_append, List.mem_append] at hr
    exact hr.elim (hclose h) ih
  | @block pending opener closer contents ts phrase children ns _ _ _ _ ihc ih =>
    rw [Node.allAtRules, List.mem_append] at hr
    refine hr.elim (fun hr => ?_) ih
    rcases allAtRules_withBlock (pendingAt pending opener).opening phrase children with
      hrule | ⟨name, hatRule⟩
    · exact ihc (hrule ▸ hr)
    · rw [hatRule] at hr
      rcases List.mem_cons.1 hr with rfl | hr
      · exact flush_of_prelude hp
      · exact ihc hr

/-- The preludes of a sheet that was read are trimmed. -/
theorem flush_of_mem_allAtRules {text : String} {s : Sheet} {r : AtRule} {p : String}
    (h : parse text = .ok s) (hr : r ∈ Node.allAtRules s) (hp : r.prelude = some p) :
    Flush p.toList :=
  (reads_of_readTrees (parse_eq_ok_iff.1 h)).flush_of_mem_allAtRules hr hp

/-! ## Preludes as they are written -/

/-- A prelude is written with the tokens it was read with, and with what these hold, if and
only if each lexeme that is no blank is read of its squeezed text, too. -/
theorem tokenValues_canonicalPrelude_iff {α : Type} (more : Lexeme → α) {text : String} {s : Sheet}
    {r : AtRule} {p : String} (h : parse text = .ok s) (hr : r ∈ Node.allAtRules s)
    (hp : r.prelude = some p) :
    tokenValues more (AtRule.canonicalPrelude p).toList = tokenValues more p.toList ↔
      Steady more true (bareTokens p.toList) := by
  rw [AtRule.canonicalPrelude, String.toList_ofList,
    collapse_eq_squeeze (flush_of_mem_allAtRules h hr hp).2]
  exact tokenValues_squeeze_iff

theorem tokenValues_canonicalPrelude_importForPrint :
    parse "@import \"a b\"  print;" = .ok [.atRule "import" (some "\"a b\"  print") none] ∧
      tokenValues Lexeme.source (AtRule.canonicalPrelude "\"a b\"  print").toList =
        tokenValues Lexeme.source "\"a b\"  print".toList := by
  have htokens : tokenize "@import \"a b\"  print;".toList =
      [⟨.atKeyword "import", "@import".toList, 0⟩, ⟨.blank, [' '], 7⟩,
        ⟨.string "a b", "\"a b\"".toList, 8⟩, ⟨.blank, [' ', ' '], 13⟩,
        ⟨.ident "print", "print".toList, 15⟩, ⟨.semicolon, [';'], 20⟩] := by decide +kernel
  have hparse : parse "@import \"a b\"  print;" =
      .ok [.atRule "import" (some "\"a b\"  print") none] := by
    rw [parse_eq_ok_iff, read, TokenTree.forest, htokens]
    rfl
  have hsteady : Steady Lexeme.source true (bareTokens "\"a b\"  print".toList) := by
    decide +kernel
  exact ⟨hparse, (tokenValues_canonicalPrelude_iff Lexeme.source hparse
    (List.mem_singleton_self _) rfl).2 hsteady⟩

/-- The blanks within a string are collapsed, too. -/
theorem import_loses_a_blank :
    ∃ s, parse "@import \"a  b\";" = .ok s ∧ ∃ r ∈ Node.allAtRules s, ∃ p, r.prelude = some p ∧
      solidTokens p.toList = [.string "a  b"] ∧
      solidTokens (AtRule.canonicalPrelude p).toList = [.string "a b"] := by
  have htokens : tokenize "@import \"a  b\";".toList =
      [⟨.atKeyword "import", "@import".toList, 0⟩, ⟨.blank, [' '], 7⟩,
        ⟨.string "a  b", "\"a  b\"".toList, 8⟩, ⟨.semicolon, [';'], 14⟩] := by decide +kernel
  have hparse : parse "@import \"a  b\";" = .ok [.atRule "import" (some "\"a  b\"") none] := by
    rw [parse_eq_ok_iff, read, TokenTree.forest, htokens]
    rfl
  refine ⟨_, hparse, _, List.mem_singleton_self _, _, rfl, ?_, ?_⟩
  · decide +kernel
  · decide +kernel

end Sheet

end CssPruning
