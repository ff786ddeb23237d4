import CssPruning.Proofs.Token.Backlog

/-!
# One lexeme of a squeezed text

The first token of a text, apart from blanks, is read from the squeezed text, too, if
that starts with the same token.  Then either the squeezed lexeme is the lexeme
squeezed, and what is left is what is left, squeezed; or the tokens that are left
differ (`next_squeeze`).  The one is how all literals are read, the other can happen
with names only.

A malformed address has to hold the same, as it is not told by its token.
-/

set_option autoImplicit false

namespace CssPruning

open Token Text

/-- What a malformed address holds up to its closing parenthesis, without the spaces it
starts with. -/
def Lexeme.malformed (l : Lexeme) : List Char :=
  if l.token = .badUrl then ((name l.source).rest.drop 1).dropWhile isSpace else []

namespace Token

variable {b : Bool} {c d : Char} {cs xs : List Char}

/-- What is left of a squeezed text is what is left of the text, squeezed. -/
def InStep {α : Type} (s s' : Scan α) : Prop :=
  ∀ b, s'.rest = squeeze (endsBlank b s.source) s.rest

theorem InStep.behind {α : Type} {s s' : Scan α} (h : InStep s s') (lead lead' : List Char) :
    InStep (s.behind lead) (s'.behind lead') := by
  intro b
  simp only [Scan.behind, endsBlank_append]
  exact h _

/-- What ends with a mark of its own, or with the text, ends where it did. -/
theorem InStep.of_closed {α : Type} {s s' : Scan α} (hrest : s'.rest = squeeze false s.rest)
    (h : ∀ b, endsBlank b s.source = false ∨ s.rest = []) : InStep s s' := by
  intro b
  rw [hrest]
  rcases h b with hends | hnil
  · rw [hends]
  · rw [hnil, squeeze_nil, squeeze_nil]

/-! ## Names, functions and addresses -/

/-- A name at the head of a text ends where it did in the squeezed text only if the text
starts with no blank. -/
theorem name_squeeze_cons (hname : startsName (c :: cs) = true)
    (h : (name (squeeze true (c :: cs))).value.map blankMask =
      (name (c :: cs)).value.map blankMask) :
    (isBlank c = false ∧ InStep (name (c :: cs)) (name (squeeze true (c :: cs)))) ∨
      OutOfStep (name (c :: cs)) (name (squeeze true (c :: cs))) := by
  cases hc : isBlank c with
  | false =>
    rcases name_squeeze (List.forall_mem_nil _) h with ⟨-, hstep⟩ | hapart
    · refine .inl ⟨rfl, fun b => ?_⟩
      rw [hstep, endsBlank_of_ne_nil (source_name_ne_nil hname) true b]
    · exact .inr hapart
  | true =>
    have hchar := (startsName_of_isBlank hc cs).symm.trans hname
    have hforeign : isForeign c = true := by rw [isForeign, hc, hchar]; rfl
    rw [OutOfStep, squeeze_true_cons hc]
    rw [squeeze_true_cons hc] at h
    rw [name_cons_of_isNameChar hchar] at h ⊢
    refine .inr ((name_squeeze (List.forall_mem_singleton.2 hforeign) ?_).resolve_left
      fun h => List.cons_ne_nil _ _ h.1)
    simpa [Scan.behind, Scan.map, withoutNul_of_isBlank hc, blankMask_of_isBlank hc] using h

theorem next_paren (cs : List Char) : next '(' cs = ⟨.opening .round, ['('], cs⟩ :=
  mark_of_isLone (c := '(') rfl cs

/-- What a malformed address holds is read behind its parenthesis. -/
theorem malformed_behind {s : Scan Token} {rest : List Char} (hname : (name cs).rest = '(' :: rest)
    (hs : s.value = .badUrl) :
    (s.behind ((name cs).source ++ ['('])).lexeme.malformed =
      s.source.dropWhile isSpace := by
  have hakin : Akin (name cs).rest ('(' :: s.source) := by
    rw [hname]
    apply akin_of_next <;> rw [next_paren, next_paren]
  simp only [Scan.behind, Scan.lexeme]
  rw [Lexeme.malformed, if_pos hs, List.append_assoc, List.singleton_append, local_name hakin]
  rfl

/-- Tokens of names that are in step are so, too. -/
theorem InStep.nameOrFunction (h : InStep (name cs) (name xs))
    (hvalue : (nameOrFunction xs).value = (nameOrFunction cs).value)
    (hbad : (nameOrFunction xs).lexeme.malformed = (nameOrFunction cs).lexeme.malformed) :
    InStep (nameOrFunction cs) (nameOrFunction xs) := by
  rcases nameOrFunction_cases cs with
    ⟨-, hident⟩ | ⟨rest, hparen, hfunction | ⟨hurl, s, hs, haddress⟩⟩
  · rw [hident] at hvalue ⊢
    exact fun b => (name_of_ident hvalue).2.trans (h b)
  · rw [hfunction] at hvalue ⊢
    intro b
    have hstep := h b
    rw [(name_of_function hvalue).2, hparen, squeeze_cons (c := '(') rfl, List.cons.injEq] at hstep
    rw [hstep.2, endsBlank_append]
    rfl
  · rw [haddress] at hvalue hbad ⊢
    obtain ⟨rest', s', hparen', -, hs', haddress'⟩ := name_of_address hs hvalue
    rw [haddress'] at hvalue hbad ⊢
    have hstep := h true
    rw [hparen', hparen, squeeze_cons (c := '(') rfl, List.cons.injEq] at hstep
    rw [hstep.2] at hs'
    refine InStep.behind (fun b => ?_) _ _
    refine rest_address_squeeze hs hs' hvalue (fun hmalformed => ?_) b
    have hmalformed' : s'.value = .badUrl := hvalue.trans hmalformed
    rw [← malformed_behind hparen hmalformed, ← malformed_behind hparen' hmalformed']
    exact hbad

theorem nameOrFunction_squeeze (hname : startsName (c :: cs) = true)
    (hvalue : (nameOrFunction (squeeze true (c :: cs))).value = (nameOrFunction (c :: cs)).value)
    (hbad : (nameOrFunction (squeeze true (c :: cs))).lexeme.malformed =
      (nameOrFunction (c :: cs)).lexeme.malformed) :
    (isBlank c = false ∧
        InStep (nameOrFunction (c :: cs)) (nameOrFunction (squeeze true (c :: cs)))) ∨
      OutOfStep (nameOrFunction (c :: cs)) (nameOrFunction (squeeze true (c :: cs))) := by
  rcases name_squeeze_cons hname (map_blankMask_of_token hvalue) with ⟨hc, hstep⟩ | hout
  · exact .inl ⟨hc, hstep.nameOrFunction hvalue hbad⟩
  · exact .inr (hout.nameOrFunction hvalue)

/-! ## Numerals -/

theorem numeral_cases (cs : List Char) :
    (∃ rest, (decimal cs).rest = '%' :: rest ∧
      numeral cs = ⟨.percentage, (decimal cs).source ++ ['%'], rest⟩) ∨
    (startsName (decimal cs).rest = true ∧ numeral cs =
      ⟨.dimension (String.ofList (name (decimal cs).rest).value),
        (decimal cs).source ++ (name (decimal cs).rest).source, (name (decimal cs).rest).rest⟩) ∨
    numeral cs = ⟨.number, (decimal cs).source, (decimal cs).rest⟩ := by
  fun_cases numeral cs with
  | case1 n rest hr => exact .inl ⟨rest, hr, rfl⟩
  | case2 n hname hr => exact .inr (.inl ⟨hname, rfl⟩)
  | case3 n hname hr => exact .inr (.inr rfl)

theorem numeral_squeeze (hnumber : (decimal cs).source ≠ [])
    (hvalue : (numeral (squeeze false cs)).value = (numeral cs).value) :
    InStep (numeral cs) (numeral (squeeze false cs)) ∨
      OutOfStep (numeral cs) (numeral (squeeze false cs)) := by
  have hdecimal := blankless_decimal.squeeze cs
  rcases numeral_cases cs with ⟨rest, hr, h⟩ | ⟨hname, h⟩ | h <;>
    rcases numeral_cases (squeeze false cs) with ⟨rest', hr', h'⟩ | ⟨hname', h'⟩ | h' <;>
    rw [h, h'] at hvalue ⊢ <;> try cases hvalue
  · -- two percentages
    left
    intro b
    rw [hdecimal, hr, squeeze_cons (c := '%') rfl, List.cons.injEq] at hr'
    rw [endsBlank_append, ← hr'.2]
    rfl
  · -- two dimensions, of one unit
    rw [hdecimal] at hvalue ⊢
    have hsame := String.ofList_injective (Token.dimension.inj hvalue)
    rcases name_squeeze (List.forall_mem_nil _) (congrArg (List.map blankMask) hsame)
      with ⟨-, hstep⟩ | hapart
    · left
      intro b
      rw [endsBlank_append, endsBlank_of_ne_nil (source_name_ne_nil hname) _ false]
      exact hstep
    · exact .inr hapart
  · -- two numbers
    left
    intro b
    rw [blankless_decimal.endsBlank b hnumber, hdecimal]

/-! ## Marks -/

/-- A hash or an at-keyword is a name behind its mark. -/
theorem mark_of_named {text : String}
    (h : (mark c cs).value = .hash text ∨ (mark c cs).value = .atKeyword text) :
    text = String.ofList (name cs).value ∧ (mark c cs).rest = (name cs).rest := by
  revert h
  fun_cases mark c cs with
  | case1 =>
    intro h
    simp only [Scan.behind, Scan.map] at h
    split at h <;> simp at h
  | case2 => simp [Scan.behind, Scan.map, eq_comm]
  | case3 => simp [Scan.behind, Scan.map, eq_comm]
  | case4 | case5 | case6 => simp [Scan.behind, Scan.map]
  | case7 | case8 =>
    dsimp only
    rintro (h | h) <;>
    · have hkind := kind_single c
      rw [h] at hkind
      cases hkind

/-- A token of one character leaves what is behind that. -/
theorem rest_mark_of_single (h : (mark c cs).value = single c) : (mark c cs).rest = cs := by
  rcases kind_mark c cs with ⟨-, hsource⟩ | hlong
  · have hsplits := mark_splits c cs
    rw [Scan.Splits, hsource] at hsplits
    exact (List.cons.inj hsplits).2
  · rw [h, kind_single] at hlong
    cases hlong

theorem mark_squeeze_of_named (hc : isBlank c = false) {s : Scan Token}
    (hs : s.source = c :: (name cs).source) (hrest : s.rest = (name cs).rest)
    (hvalue : (mark c (squeeze false cs)).value = .hash (String.ofList (name cs).value) ∨
      (mark c (squeeze false cs)).value = .atKeyword (String.ofList (name cs).value)) :
    InStep s (mark c (squeeze false cs)) ∨ OutOfStep s (mark c (squeeze false cs)) := by
  obtain ⟨htext, hrest'⟩ := mark_of_named hvalue
  have hmask : (name (squeeze false cs)).value.map blankMask = (name cs).value.map blankMask := by
    rw [String.ofList_injective htext]
  rcases name_squeeze (List.forall_mem_nil _) hmask with
    ⟨-, hstep⟩ | ⟨ds, hds, hapart⟩
  · left
    intro b
    rw [hrest', hstep, hs, hrest, endsBlank_cons, hc]
  · exact .inr ⟨ds, hrest'.trans hds, hrest ▸ hapart⟩

/-- A mark is read in step, but for the name that may stand behind it. -/
theorem mark_squeeze (hc : isBlank c = false)
    (hvalue : (mark c (squeeze false cs)).value = (mark c cs).value) :
    InStep (mark c cs) (mark c (squeeze false cs)) ∨
      OutOfStep (mark c cs) (mark c (squeeze false cs)) := by
  have hsingle {cs' : List Char} (h : (mark c (squeeze false cs')).value = single c) :
      InStep (Scan.mk (single c) [c] cs') (mark c (squeeze false cs')) := by
    intro b
    rw [rest_mark_of_single h, endsBlank_cons, hc, endsBlank_nil]
  revert hvalue
  fun_cases mark c cs with
  | case1 _ _ hquote =>
    unfold mark
    rw [if_pos hquote]
    intro hvalue
    have hquote : c = '"' ∨ c = '\'' := by simpa using hquote
    have hsome := isSome_stringBody_squeeze c false cs
    -- nothing of the squeezed text is cut off, and so the string is not
    have h : (stringBody c cs).value.isSome = true := by
      obtain ⟨text, htext⟩ := Option.isSome_iff_exists.1 hsome
      cases h : (stringBody c cs).value with
      | some => rfl
      | none =>
        simp only [Scan.behind, Scan.map, htext, h] at hvalue
        cases hvalue
    refine .inl (InStep.behind (.of_closed ?_ fun b => ?_) [c] [c])
    · exact rest_stringBody_squeeze hquote false h
    · exact endsBlank_source_stringBody hquote b h
  | case2 => exact fun hvalue => mark_squeeze_of_named hc rfl rfl (.inl hvalue)
  | case3 => exact fun hvalue => mark_squeeze_of_named hc rfl rfl (.inr hvalue)
  | case4 rest =>
    intro _
    rw [squeeze_cons rfl]
    change InStep _ (((commentBody (squeeze false rest)).map
      fun text => comment (String.ofList text)).behind ['/', '*']) ∨ _
    refine .inl (InStep.behind (.of_closed ?_ fun b => ?_) _ _)
    · exact rest_commentBody_squeeze false rest
    · exact endsBlank_source_commentBody b rest
  | case5 => exact fun _ => .inl fun _ => rfl
  | case6 rest _ hcomparison hquote =>
    intro _
    left
    rw [squeeze_cons rfl, mark_equals hquote, if_pos hcomparison]
    exact fun _ => rfl
  | case7 | case8 => exact fun hvalue => .inl (hsingle hvalue)

/-! ## Any token -/

/-- What starts a mark starts neither a number nor a name. -/
theorem next_of_not_starts (hspace : isSpace c = false) (hnumber : startsNumber (c :: cs) = false)
    (hname : startsName (c :: cs) = false) : next c cs = mark c cs := by
  have harrow : ¬ ['-', '-', '>'].isPrefixOf (c :: cs) = true := by
    intro h
    obtain ⟨rest, hrest⟩ := List.isPrefixOf_iff_prefix.1 h
    rw [← hrest] at hname
    cases hname
  rw [next, if_neg (Bool.eq_false_iff.1 hspace), if_neg (Bool.eq_false_iff.1 hnumber),
    if_neg harrow, if_neg (Bool.eq_false_iff.1 hname)]

/-- The first token of a text that starts with no blank. -/
theorem next_squeeze_of_not_isBlank (hc : isBlank c = false)
    (hvalue : (next c (squeeze false cs)).value = (next c cs).value)
    (hbad : (next c (squeeze false cs)).lexeme.malformed = (next c cs).lexeme.malformed) :
    InStep (next c cs) (next c (squeeze false cs)) ∨
      OutOfStep (next c cs) (next c (squeeze false cs)) := by
  have hsqueeze := squeeze_cons hc
  have hnumber : startsNumber (c :: squeeze false cs) = startsNumber (c :: cs) := by
    rw [Bool.eq_iff_iff, startsNumber_iff, startsNumber_iff, hvalue]
  have hname : startsName (c :: squeeze false cs) = startsName (c :: cs) := by
    rw [Bool.eq_iff_iff, startsName_iff, startsName_iff, hvalue]
  cases hnumeral : startsNumber (c :: cs) with
  | true =>
    have hnext {text : List Char} (h : startsNumber (c :: text) = true) :
        next c text = numeral (c :: text) := by
      rw [next, if_neg (Bool.eq_false_iff.1 (isSpace_of_not_isBlank hc)), if_pos h]
    rw [hnext hnumeral, hnext (hnumber.trans hnumeral)] at hvalue ⊢
    rw [← hsqueeze false] at hvalue ⊢
    exact numeral_squeeze (source_decimal_ne_nil hnumeral) hvalue
  | false =>
  cases hnamed : startsName (c :: cs) with
  | false =>
    have hspace := isSpace_of_not_isBlank hc
    rw [next_of_not_starts hspace hnumeral hnamed,
      next_of_not_starts hspace (hnumber.trans hnumeral) (hname.trans hnamed)] at hvalue ⊢
    exact mark_squeeze hc hvalue
  | true =>
  rcases (startsName_iff c cs).1 hnamed with hkind | ⟨harrow, rfl⟩
  · have hkind' : kind (next c (squeeze false cs)).value = .name := by rw [hvalue, hkind]
    rw [next_of_kind_name hkind, next_of_kind_name hkind', ← hsqueeze true] at hvalue hbad ⊢
    exact (nameOrFunction_squeeze hnamed hvalue hbad).imp_left And.right
  · have hprefix : ['-', '-', '>'].isPrefixOf ('-' :: cs) = true := by
      by_contra h
      rw [next, if_neg (by decide), if_neg (Bool.eq_false_iff.1 hnumeral), if_neg h,
        if_pos hnamed] at harrow
      have hkind := kind_nameOrFunction ('-' :: cs)
      rw [harrow] at hkind
      cases hkind
    obtain ⟨rest, hrest⟩ := List.isPrefixOf_iff_prefix.1 hprefix
    cases hrest
    exact .inl fun _ => rfl

/-- The first token of a squeezed text, if it is that of the text, is read of as much. -/
theorem next_squeeze (hspace : isSpace c = false) (htext : squeeze true (c :: cs) = d :: xs)
    (hvalue : (next d xs).value = (next c cs).value)
    (hbad : (next d xs).lexeme.malformed = (next c cs).lexeme.malformed) :
    (isBlank c = false ∧ InStep (next c cs) (next d xs)) ∨ OutOfStep (next c cs) (next d xs) ∨
      c = '\x0b' := by
  cases hc : isBlank c with
  | false =>
    rw [squeeze_cons hc, List.cons.injEq] at htext
    obtain ⟨rfl, rfl⟩ := htext
    rcases next_squeeze_of_not_isBlank hc hvalue hbad with hstep | hapart
    · exact .inl ⟨rfl, hstep⟩
    · exact .inr (.inl hapart)
  | true =>
    cases hchar : isNameChar c with
    | false => exact .inr (.inr (eq_tab_of_isBlank hc hspace hchar))
    | true =>
      have hname := (startsName_of_isBlank hc cs).trans hchar
      have hne : c ≠ '-' := by
        rintro rfl
        cases hc
      have hkind := ((startsName_iff c cs).1 hname).resolve_right fun h => hne h.2
      have hkind' : kind (next d xs).value = .name := by rw [hvalue, hkind]
      rw [next_of_kind_name hkind, next_of_kind_name hkind', ← htext] at hvalue hbad ⊢
      rcases nameOrFunction_squeeze hname hvalue hbad with ⟨hc', -⟩ | hapart
      · rw [hc] at hc'
        cases hc'
      · exact .inr (.inl hapart)

end Token

end CssPruning
