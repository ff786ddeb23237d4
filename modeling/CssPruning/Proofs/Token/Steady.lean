import CssPruning.Proofs.Token.InStep

/-!
# Which texts are read the same when squeezed

A text and the squeezed text have the same tokens, blanks apart, exactly if every lexeme
is steady: squeezed on its own, it is still read in front of what follows it, and as the
same token (`tokenValues_squeeze_iff`).  So no difference in one place makes up for one in
another, for which the two texts would have to fall into step again.

A token here is compared with all that is read off its lexeme.  What a malformed address
holds is a part of that, and so is anything else, such as the size of a number or the
kind of a comparison, by a function of the lexeme that the results leave open.
-/

set_option autoImplicit false

namespace CssPruning

open Token Text

/-! ## The values of a text -/

variable {α : Type} (more : Lexeme → α)

/-- A token, with what it holds if it is a malformed address, and more that is read off
its lexeme. -/
def Lexeme.value (l : Lexeme) : Token × List Char × α := (l.token, l.malformed, more l)

/-- What the lexemes of the text are, blanks apart. -/
def tokenValues (cs : List Char) : List (Token × List Char × α) :=
  (solid cs).map (Lexeme.value more)

theorem tokenValues_cons {c : Char} (hc : isSpace c = false) (cs : List Char) :
    tokenValues more (c :: cs) =
      (next c cs).lexeme.value more :: tokenValues more (next c cs).rest := by
  rw [tokenValues, solid_cons hc, List.map_cons]
  rfl

theorem solidTokens_eq_of_tokenValues {cs ds : List Char}
    (h : tokenValues more cs = tokenValues more ds) : solidTokens cs = solidTokens ds := by
  have hfst (text : List Char) : solidTokens text = (tokenValues more text).map Prod.fst := by
    rw [tokenValues, List.map_map]
    rfl
  rw [hfst, hfst, h]

theorem tokenValues_squeeze (b : Bool) (cs : List Char) :
    tokenValues more (squeeze b cs) = tokenValues more (squeeze true cs) := by
  rw [tokenValues, tokenValues, solid_squeeze]

/-! ## Steady lexemes -/

/-- The lexeme with its text squeezed. -/
def Lexeme.squeezed (b : Bool) (l : Lexeme) : Lexeme := ⟨l.token, squeeze b l.source, 0⟩

/-- Each lexeme that is no blank is read of its squeezed text, too, with the same value. -/
def Steady : Bool → List Lexeme → Prop
  | _, [] => True
  | b, l :: ls =>
    (l.token ≠ .blank → (l.squeezed b).value more = l.value more ∧
      (l.squeezed b).StandsBefore (squeeze (endsBlank b l.source) (ls.flatMap Lexeme.source))) ∧
    Steady (endsBlank b l.source) ls

instance Steady.decidable [DecidableEq α] :
    ∀ (b : Bool) (ls : List Lexeme), Decidable (Steady more b ls)
  | _, [] => inferInstanceAs (Decidable True)
  | b, l :: ls =>
    have := Steady.decidable (endsBlank b l.source) ls
    inferInstanceAs (Decidable (_ ∧ _))

variable {more : Lexeme → α} {b : Bool} {c : Char} {cs : List Char}

theorem steady_nil : Steady more b (bareTokens []) := by
  rw [bareTokens_nil]
  trivial

theorem steady_of_isSpace (hc : isSpace c = true) : Steady more b (bareTokens (c :: cs)) ↔
    Steady more (endsBlank b (next c cs).source) (bareTokens (next c cs).rest) := by
  rw [bareTokens_cons, Steady, (value_next_eq_blank_iff c cs).2 hc]
  exact and_iff_right (absurd rfl ·)

theorem steady_cons (hc : isSpace c = false) : Steady more b (bareTokens (c :: cs)) ↔
    (((next c cs).lexeme.squeezed b).value more = (next c cs).lexeme.value more ∧
      ((next c cs).lexeme.squeezed b).StandsBefore
        (squeeze (endsBlank b (next c cs).source) (next c cs).rest)) ∧
    Steady more (endsBlank b (next c cs).source) (bareTokens (next c cs).rest) := by
  rw [bareTokens_cons, Steady, flatMap_source_bareTokens]
  exact and_congr_left fun _ => forall_prop_of_true (value_next_ne_blank hc cs)

/-- The blanks that a text starts with count for nothing, squeezed or not. -/
theorem tokenValues_squeeze_of_isSpace (hc : isSpace c = true) (b b' : Bool) :
    tokenValues more (squeeze b (c :: cs)) = tokenValues more (squeeze b' (next c cs).rest) := by
  rw [tokenValues_squeeze, tokenValues_squeeze more b', rest_next_of_isSpace hc,
    squeeze_true_dropWhile_isSpace, squeeze_true_cons (isBlank_of_isSpace hc)]

theorem tokenValues_of_isSpace (hc : isSpace c = true) :
    tokenValues more (c :: cs) = tokenValues more (next c cs).rest := by
  rw [tokenValues, tokenValues, rest_next_of_isSpace hc, solid_dropWhile_isSpace,
    solid_cons_space hc]

/-- Lexemes that are steady are read of the squeezed text. -/
theorem Steady.tokenValues_eq (h : Steady more b (bareTokens cs)) :
    tokenValues more (squeeze b cs) = tokenValues more cs := by
  induction cs using lexemeInduction generalizing b with
  | nil => rfl
  | cons c cs ih =>
    cases hc : isSpace c with
    | true =>
      rw [tokenValues_squeeze_of_isSpace hc b _, tokenValues_of_isSpace hc]
      exact ih ((steady_of_isSpace hc).1 h)
    | false =>
      obtain ⟨⟨hvalue, hstands⟩, hrest⟩ := (steady_cons hc).1 h
      rw [tokenValues_cons more hc, ← hvalue, ← ih hrest, ← next_splits c cs, squeeze_append,
        tokenValues]
      exact congrArg (List.map (Lexeme.value more))
        (solid_source_append (value_next_ne_blank hc cs) hstands)

/-- A lexeme that is read in step is the lexeme of the text, squeezed. -/
theorem Token.InStep.squeezed_eq {d : Char} {xs : List Char}
    (hstep : InStep (next c cs) (next d xs))
    (hc : isBlank c = false) (htext : squeeze true (c :: cs) = d :: xs)
    (htoken : (next d xs).value = (next c cs).value) (b : Bool) :
    (next c cs).lexeme.squeezed b = (next d xs).lexeme := by
  have hsplit : squeeze b (next c cs).source ++ (next d xs).rest = d :: xs := by
    rw [hstep b, ← squeeze_append, next_splits c cs, ← htext]
    exact squeeze_of_head (by simpa using hc) b true
  have hsource := List.append_cancel_right (hsplit.trans (next_splits d xs).symm)
  rw [Scan.lexeme, Scan.lexeme, Lexeme.squeezed, hsource, htoken]

/-- A squeezed text in which the lexemes have the same values is read in step. -/
theorem steady_of_tokenValues_eq (h : tokenValues more (squeeze b cs) = tokenValues more cs) :
    Steady more b (bareTokens cs) := by
  induction cs using lexemeInduction generalizing b with
  | nil => exact steady_nil
  | cons c cs ih =>
    cases hc : isSpace c with
    | true =>
      rw [tokenValues_squeeze_of_isSpace hc b _, tokenValues_of_isSpace hc] at h
      exact (steady_of_isSpace hc).2 (ih h)
    | false =>
      have hsame := (tokenValues_squeeze more b (c :: cs)).symm.trans h
      have htokens := solidTokens_eq_of_tokenValues more hsame
      obtain ⟨d, xs, hds, hd⟩ : ∃ d xs, squeeze true (c :: cs) = d :: xs ∧ isBlank d = false := by
        apply exists_cons_of_solidTokens
        rw [htokens, solidTokens_cons hc]
        exact List.cons_ne_nil _ _
      rw [hds, tokenValues_cons more (isSpace_of_not_isBlank hd), tokenValues_cons more hc,
        List.cons.injEq] at hsame
      obtain ⟨hvalue, hrest⟩ := hsame
      have htoken : (next d xs).value = (next c cs).value := congrArg Prod.fst hvalue
      have hbad := congrArg (Prod.fst ∘ Prod.snd) hvalue
      rcases next_squeeze hc hds htoken hbad with ⟨hblank, hstep⟩ | ⟨ds, hds', hapart⟩ | rfl
      · refine (steady_cons hc).2 ⟨?_, ih (hstep b ▸ hrest)⟩
        rw [hstep.squeezed_eq hblank hds htoken b, ← hstep b]
        exact ⟨hvalue, standsBefore_next d xs⟩
      · rw [hds'] at hrest
        exact absurd (solidTokens_eq_of_tokenValues more hrest) (tokens_ne_of_apart hapart)
      · exact absurd htokens (solidTokens_squeeze_ne_tab _ cs)

/-- A text and the squeezed text are read with the same values if and only if each lexeme
is steady. -/
theorem tokenValues_squeeze_iff :
    tokenValues more (squeeze b cs) = tokenValues more cs ↔ Steady more b (bareTokens cs) :=
  ⟨steady_of_tokenValues_eq, Steady.tokenValues_eq⟩

end CssPruning
