import CssPruning.Proofs.Token.Boundary

/-!
# The first tree of a text and the others

All trees of a forest but the last one are whole (`whole_of_mem_dropLast_forest`).  So
the first tree can be taken away from a text together with its source, and what is left
has the other trees, places apart (`mapAll_bare_tail`).
-/

set_option autoImplicit false

namespace CssPruning

namespace TokenTree

/-! ## Trees below those of the level -/

/-- The same open blocks, with some more trees before all the others of the outermost
level. -/
inductive Raised (base : List TokenTree) :
    List Frame → List TokenTree → List Frame → List TokenTree → Prop where
  | level (done : List TokenTree) : Raised base [] done [] (done ++ base)
  | frame {frames frames' : List Frame} {before before' : List TokenTree} (opener : Lexeme)
      (b : Bracket) (done : List TokenTree) : Raised base frames before frames' before' →
      Raised base (⟨opener, b, before⟩ :: frames) done (⟨opener, b, before'⟩ :: frames') done

section

variable {base done done' : List TokenTree} {frames frames' : List Frame}

theorem Raised.cons (h : Raised base frames done frames' done') (t : TokenTree) :
    Raised base frames (t :: done) frames' (t :: done') := by
  cases h with
  | level => exact .level (t :: done)
  | frame opener b _ h => exact .frame opener b (t :: done) h

theorem Raised.unwind_eq (h : Raised base frames done frames' done') :
    unwind frames' done' = base.reverse ++ unwind frames done := by
  induction frames generalizing done frames' done' with
  | nil =>
    cases h
    exact List.reverse_append
  | cons f fs ih =>
    cases h with
    | frame opener b _ h =>
      rw [unwind, unwind]
      exact ih (h.cons _)

/-- Trees that are there before all others stay in front. -/
theorem Raised.group_eq (h : Raised base frames done frames' done') (ls : List Lexeme) :
    group frames' done' ls = base.reverse ++ group frames done ls := by
  fun_induction group frames done ls generalizing frames' done' with
  | case1 frames done => exact h.unwind_eq
  | case2 frames done l ls b hopens ih =>
    rw [group_opening hopens]
    exact ih (.frame l b [] h)
  | case3 done l ls hopens f fs hl ih =>
    cases h with
    | @frame _ _ _ before' opener b _ h =>
      rw [group_closing (f := ⟨opener, b, before'⟩) hl]
      exact ih (h.cons _)
  | case4 done l ls hopens f fs hl ih =>
    cases h with
    | frame opener b _ h =>
      rw [group_leaf hopens (by simpa using hl)]
      exact ih (.frame opener b _ h)
  | case5 done l ls hopens ih =>
    cases h
    rw [group_leaf hopens (by simp)]
    exact ih (.level _)

end

theorem group_nil (done : List TokenTree) (ls : List Lexeme) :
    group [] done ls = done.reverse ++ group [] [] ls := by
  have hraised : Raised done [] [] [] done := .level []
  exact hraised.group_eq ls

/-! ## Whole trees in front -/

theorem flatMap_source_allLexemes (ts : List TokenTree) :
    (allLexemes ts).flatMap Lexeme.source = ts.flatMap source := by
  rw [allLexemes_eq_flatMap, List.flatMap_assoc]
  rfl

theorem source_block (opener : Lexeme) (contents : List TokenTree) (closer : Option Lexeme) :
    (block opener contents closer).source =
      opener.source ++ (contents.flatMap source ++ closer.toList.flatMap Lexeme.source) := by
  rw [source, lexemes, List.flatMap_cons, List.flatMap_append, flatMap_source_allLexemes]

/-- Every tree takes some text. -/
theorem source_ne_nil_of_mem_forest {cs : List Char} {t : TokenTree} (h : t ∈ forest cs) :
    t.source ≠ [] := by
  obtain ⟨l, ls, hlexemes⟩ : ∃ l ls, t.lexemes = l :: ls := by
    cases t <;> exact ⟨_, _, rfl⟩
  have hl : l ∈ tokenize cs := by
    rw [← lexemes_forest, allLexemes_eq_flatMap]
    exact List.mem_flatMap_of_mem h (by simp [hlexemes])
  rw [source, hlexemes, List.flatMap_cons]
  exact List.append_ne_nil_of_left_ne_nil (source_ne_nil_of_mem_tokenizeFrom hl) _

/-- Only the last tree can be a block that is open at the end. -/
theorem whole_of_mem_dropLast_unwind {frames : List Frame} {done : List TokenTree}
    (h : Good frames done) : ∀ t ∈ (unwind frames done).dropLast, Whole t := by
  cases frames with
  | nil =>
    intro t ht
    exact h t (List.mem_reverse.1 ((List.dropLast_sublist _).subset ht))
  | cons f fs =>
    have hlast (fs : List Frame) (before : List TokenTree) (u : TokenTree) (h : Good fs before) :
        ∀ t ∈ (unwind fs (u :: before)).dropLast, Whole t := by
      induction fs generalizing before u with
      | nil =>
        intro t ht
        rw [unwind, List.reverse_cons, List.dropLast_concat] at ht
        exact h t (List.mem_reverse.1 ht)
      | cons g gs ih => exact ih _ _ h.2.2
    exact hlast fs f.before _ h.2.2

theorem whole_of_mem_dropLast_group {frames : List Frame} {done : List TokenTree}
    (h : Good frames done) (ls : List Lexeme) :
    ∀ t ∈ (group frames done ls).dropLast, Whole t := by
  obtain ⟨frames', done', hgood, hunwind⟩ := exists_unwind_of_good h ls
  rw [hunwind]
  exact whole_of_mem_dropLast_unwind hgood

theorem whole_of_mem_dropLast_forest (cs : List Char) : ∀ t ∈ (forest cs).dropLast, Whole t :=
  whole_of_mem_dropLast_group (show Good [] [] from List.forall_mem_nil _) _

theorem Whole.exists_allWhole {t : TokenTree} (h : Whole t) : ∃ b, AllWhole b [t] := by
  cases t with
  | block => exact ⟨.round, h, id, trivial⟩
  | leaf l =>
    by_cases hl : l.token = .closing .round
    · exact ⟨.curly, h, by simp [Closes, hl], trivial⟩
    · exact ⟨.round, h, hl, trivial⟩

/-- Without its first tree a forest is the forest of the other lexemes. -/
theorem group_allLexemes_tail {cs : List Char} {t : TokenTree} {ts : List TokenTree}
    (h : forest cs = t :: ts) : group [] [] (allLexemes ts) = ts := by
  cases ts with
  | nil => rfl
  | cons u us =>
    have hwhole : Whole t := by
      apply whole_of_mem_dropLast_forest cs
      rw [h]
      exact List.mem_cons_self
    obtain ⟨b, hb⟩ := hwhole.exists_allWhole
    have hgroup : group [] [] (allLexemes [t] ++ allLexemes (u :: us)) =
        t :: group [] [] (allLexemes (u :: us)) := by
      rw [group_allLexemes hb (by simp), group_nil]
      rfl
    rw [← allLexemes_append, List.singleton_append, ← h, lexemes_forest, ← forest, h] at hgroup
    exact (List.cons.inj hgroup).2.symm

end TokenTree

open TokenTree

/-! ## The text behind the first tree -/

/-- Lexemes whose sources stand in front of a text are those of the front, if the text
has them there. -/
theorem bareTokens_of_append {ls us : List Lexeme} {ds : List Char}
    (h : bareTokens (ls.flatMap Lexeme.source ++ ds) = ls.map Lexeme.bare ++ us) :
    bareTokens ds = us := by
  induction ls with
  | nil => exact h
  | cons l ls ih =>
    rw [List.flatMap_cons, List.append_assoc, List.map_cons, List.cons_append,
      Lexeme.bareTokens_append_iff] at h
    exact ih h.2

/-- The trees behind the first one are those of the text behind it, places apart. -/
theorem mapAll_bare_tail {t : TokenTree} {ts : List TokenTree} {ds : List Char}
    (h : forest (t.source ++ ds) = t :: ts) :
    mapAll Lexeme.bare (forest ds) = mapAll Lexeme.bare ts := by
  have hlexemes := lexemes_forest (t.source ++ ds)
  rw [h, allLexemes] at hlexemes
  have htokens : bareTokens ds = (allLexemes ts).map Lexeme.bare := by
    have hfront : bareTokens (t.source ++ ds) =
        t.lexemes.map Lexeme.bare ++ (allLexemes ts).map Lexeme.bare := by
      rw [bareTokens, ← hlexemes, List.map_append]
    exact bareTokens_of_append hfront
  have hgroup := group_map Lexeme.token_bare [] [] (tokenize ds)
  rw [← bareTokens, htokens, group_map Lexeme.token_bare [] [], group_allLexemes_tail h] at hgroup
  exact hgroup.symm

end CssPruning
