import CssPruning.Proofs.Token.Locality
import CssPruning.Proofs.Token.Unterminated

/-!
# Levels of a text

The trees of a forest, and those inside of a block in curly brackets, are levels of
the forest; a level comes with the text in front of it (`IsLevel`).  So a tree of a
level has a place that does not hang on the numbers that the lexemes carry, and the
number that it carries is the length of the text in front of it
(`IsLevel.exists_next`).

What stands in the text at the place of a tree is told by its first lexeme: a
comment starts with its opening mark, a string with a quote, a block with its
bracket or with the name in front of it.
-/

set_option autoImplicit false

namespace CssPruning

namespace Token

/-! ## What a lexeme starts with -/

/-- A token that is neither a blank, a number nor a name is a mark. -/
theorem next_eq_mark {c : Char} {cs : List Char} (h : kind (next c cs).value = .long)
    (hhiding : (next c cs).value ≠ .hidingMark) : next c cs = mark c cs := by
  revert h hhiding
  fun_cases next c cs with
  | case1 =>
    intro h
    cases h
  | case2 =>
    intro h
    rw [kind_numeral] at h
    cases h
  | case3 => exact fun _ hhiding => absurd rfl hhiding
  | case4 =>
    intro h
    rw [kind_nameOrFunction] at h
    cases h
  | case5 => exact fun _ _ => rfl

/-- A comment is read behind its opening mark. -/
theorem exists_of_next_comment {c : Char} {cs : List Char} {text : String}
    (h : (next c cs).value = .comment text) : ∃ body, c :: cs = '/' :: '*' :: body ∧
      (next c cs).source = '/' :: '*' :: (commentBody body).source := by
  have hmark : next c cs = mark c cs := next_eq_mark (by rw [h]; rfl) (by rw [h]; exact Token.noConfusion)
  rw [hmark] at h ⊢
  revert h
  fun_cases mark c cs with
  | case1 =>
    intro h
    simp only [Scan.behind, Scan.map] at h
    split at h <;> cases h
  | case4 => exact fun _ => ⟨_, rfl, rfl⟩
  | case7 | case8 =>
    intro h
    have hkind := congrArg kind h
    rw [kind_single] at hkind
    cases hkind
  | _ =>
    intro h
    cases h

/-- A string, cut off or not, is read behind a quote. -/
theorem eq_quote_of_next_string {c : Char} {cs : List Char}
    (h : (next c cs).value = .badString ∨ ∃ text, (next c cs).value = .string text) :
    c = '"' ∨ c = '\'' := by
  have hmark : next c cs = mark c cs := by
    rcases h with h | ⟨text, h⟩
    · exact next_eq_mark (by rw [h]; rfl) (by rw [h]; exact Token.noConfusion)
    · exact next_eq_mark (by rw [h]; rfl) (by rw [h]; exact Token.noConfusion)
  rw [hmark] at h
  revert h
  fun_cases mark c cs with
  | case1 =>
    rename_i hquote
    exact fun _ => by simpa using hquote
  | case7 | case8 =>
    rintro (h | ⟨text, h⟩)
    all_goals
      have hkind := congrArg kind h
      rw [kind_single] at hkind
      cases hkind
  | _ => rintro (h | ⟨text, h⟩) <;> cases h

/-- A function's name is read up to the parenthesis. -/
theorem name_of_next_function {c : Char} {cs : List Char} {word : String}
    (h : (next c cs).value = .function word) :
    startsName (c :: cs) = true ∧ (name (c :: cs)).rest.head? = some '(' := by
  have hkind : kind (next c cs).value = .name := by rw [h]; rfl
  revert h hkind
  fun_cases next c cs with
  | case1 | case3 =>
    intro h
    cases h
  | case2 =>
    intro _ hkind
    rw [kind_numeral] at hkind
    cases hkind
  | case4 =>
    rename_i hstarts
    intro h _
    refine ⟨hstarts, Decidable.byContradiction fun hne => ?_⟩
    rw [nameOrFunction_of_ne hne] at h
    cases h
  | case5 =>
    intro _ hkind
    rcases kind_mark c cs with ⟨hvalue, -⟩ | hlong
    · rw [hvalue, kind_single] at hkind
      cases hkind
    · rw [hlong] at hkind
      cases hkind

/-- A comment is read up to its first closing mark. -/
theorem suffix_of_infix {cs : List Char} (h : ['*', '/'] <:+: cs) :
    ['*', '/'] <:+ (commentBody cs).source := by
  fun_induction commentBody cs with
  | case1 => simp at h
  | case2 cs => exact List.suffix_refl _
  | case3 c cs hmark ih =>
    refine (ih ?_).trans (List.suffix_cons c _)
    rcases List.infix_cons_iff.1 h with ⟨rest, hrest⟩ | h
    · obtain ⟨rfl, rfl⟩ := List.cons.inj hrest
      exact absurd rfl (hmark rest rfl)
    · exact h

end Token

open Token

/-- A comment that does not look closed has no closing mark behind it. -/
theorem Lexeme.not_infix_of_commentCloses {l : Lexeme} {body : List Char}
    (hsource : l.source = '/' :: '*' :: (commentBody body).source)
    (h : l.commentCloses = false) : ¬ ['*', '/'] <:+: body := by
  intro hinfix
  have hsuffix := suffix_of_infix hinfix
  have hlength := hsuffix.length_le
  rw [Lexeme.commentCloses, hsource, Bool.and_eq_false_iff, decide_eq_false_iff_not] at h
  rcases h with h | h
  · exact h (by simpa using hlength)
  · rw [← Bool.not_eq_true, List.isPrefixOf_iff_prefix] at h
    exact h (List.reverse_prefix.2
      (hsuffix.trans ((List.suffix_cons _ _).trans (List.suffix_cons _ _))))

/-! ## Levels -/

namespace TokenTree

/-- The trees of the whole forest, or of a block in curly brackets of a level, and the text in
front of them. -/
inductive IsLevel (whole : List TokenTree) : List Char → List TokenTree → Prop where
  | top : IsLevel whole [] whole
  | inside {before : List Char} {front contents behind : List TokenTree} {opener : Lexeme}
      {closer : Option Lexeme} :
      IsLevel whole before (front ++ block opener contents closer :: behind) →
      opener.token = .opening .curly →
      IsLevel whole (before ++ front.flatMap source ++ opener.source) contents

/-- Every block of the tree, at any depth, begins with an opening bracket. -/
inductive Rooted : TokenTree → Prop where
  | leaf (l : Lexeme) : Rooted (leaf l)
  | block {opener : Lexeme} {contents : List TokenTree} {closer : Option Lexeme} :
      opener.token.opens.isSome = true → (∀ t ∈ contents, Rooted t) →
      Rooted (block opener contents closer)

theorem IsLevel.rooted {cs before : List Char} {ts : List TokenTree}
    (h : IsLevel (forest cs) before ts) : ∀ t ∈ ts, Rooted t := by
  induction h with
  | top => exact forall_mem_forest .leaf (fun _ _ _ hopens hcontents => .block hopens hcontents) cs
  | inside _ _ ih =>
    cases ih _ (List.mem_append_right _ List.mem_cons_self) with
    | block _ hcontents => exact hcontents

theorem flatMap_source (ts : List TokenTree) :
    ts.flatMap source = (allLexemes ts).flatMap Lexeme.source := by
  rw [allLexemes_eq_flatMap, List.flatMap_assoc]
  rfl

/-- The lexemes of a level stand in a row, behind those of the text in front of it. -/
theorem IsLevel.exists_lexemes {whole ts : List TokenTree} {before : List Char}
    (h : IsLevel whole before ts) : ∃ ls ls', allLexemes whole = ls ++ (allLexemes ts ++ ls') ∧
      ls.flatMap Lexeme.source = before := by
  induction h with
  | top => exact ⟨[], [], by simp, rfl⟩
  | @inside before front contents behind opener closer _ _ ih =>
    obtain ⟨ls, ls', hlexemes, rfl⟩ := ih
    refine ⟨ls ++ (allLexemes front ++ [opener]), closer.toList ++ (allLexemes behind ++ ls'),
      ?_, ?_⟩
    · rw [hlexemes, allLexemes_append, allLexemes, lexemes]
      simp
    · simp [flatMap_source]

/-- The first lexeme of a tree. -/
def head : TokenTree → Lexeme
  | leaf l => l
  | block opener _ _ => opener

theorem exists_lexemes_eq (t : TokenTree) : ∃ ls, t.lexemes = t.head :: ls := by
  cases t with
  | leaf l => exact ⟨[], rfl⟩
  | block opener contents closer => exact ⟨_, rfl⟩

theorem start_head (t : TokenTree) : t.head.start = t.start := by
  cases t <;> rfl

/-- At the place of a tree of a level its first lexeme is the next one of the text, and the
number that the tree carries is the length of the text in front of it. -/
theorem IsLevel.exists_next {cs before : List Char} {front behind : List TokenTree} {t : TokenTree}
    (h : IsLevel (forest cs) before (front ++ t :: behind)) :
    t.start = (before ++ front.flatMap source).length ∧
      ∃ c ds, cs = before ++ front.flatMap source ++ c :: ds ∧
        (next c ds).value = t.head.token ∧ (next c ds).source = t.head.source := by
  obtain ⟨ls, ls', hlexemes, rfl⟩ := h.exists_lexemes
  obtain ⟨ms, hms⟩ := t.exists_lexemes_eq
  have htokens : tokenizeFrom 0 cs = ls ++ allLexemes front ++
      t.head :: (ms ++ (allLexemes behind ++ ls')) := by
    rw [← tokenize, ← lexemes_forest, hlexemes, allLexemes_append, allLexemes, hms]
    simp
  have hfront : (ls ++ allLexemes front).flatMap Lexeme.source =
      ls.flatMap Lexeme.source ++ front.flatMap source := by
    rw [List.flatMap_append, flatMap_source]
  obtain ⟨c, ds, hcs, hhead, -⟩ := exists_of_tokenizeFrom_eq_append_cons htokens
  rw [hfront] at hcs hhead
  refine ⟨?_, c, ds, hcs, ?_, ?_⟩
  · rw [← start_head, hhead, Nat.zero_add]
  · rw [hhead]
  · rw [hhead]

/-- The trees of a level stand in the text at their place. -/
theorem IsLevel.exists_source {cs before : List Char} {front trees behind : List TokenTree}
    (h : IsLevel (forest cs) before (front ++ (trees ++ behind))) :
    ∃ rest, cs = before ++ front.flatMap source ++ (trees.flatMap source ++ rest) := by
  obtain ⟨ls, ls', hlexemes, rfl⟩ := h.exists_lexemes
  have htext := flatMap_source_tokenize cs
  rw [← lexemes_forest, hlexemes] at htext
  refine ⟨(allLexemes behind ++ ls').flatMap Lexeme.source, ?_⟩
  rw [← htext]
  simp [flatMap_source]

end TokenTree

end CssPruning
