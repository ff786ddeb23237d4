import CssPruning.Proofs.Token.Literal

/-!
# How far a lexeme looks

A lexeme is read the same in front of texts that are akin (`next_append`), but for
the two that look further: a function, for a quote behind blanks, and an angle
bracket, for the mark that hides a sheet.  So the lexemes of a text that a stop
follows do not hang on which stop that is, nor on anything behind it
(`tokenizeFrom_append`).

The converse does not hold: an escape, a string or an address that the text ends
inside of would have gone on.
-/

set_option autoImplicit false

namespace CssPruning.Token

/-! ## Kinds of tokens -/

/-- What a token is read by. -/
inductive Kind where
  | blank
  | numeral
  | name
  /-- a character that is a token of its own -/
  | single
  /-- any other mark -/
  | long
  deriving DecidableEq

/-- The kind of the token. -/
def kind : Token → Kind
  | .blank => .blank
  | .number | .percentage | .dimension _ => .numeral
  | .ident _ | .function _ | .url _ | .badUrl => .name
  | .colon | .semicolon | .comma | .opening _ | .closing _ | .delim _ => .single
  | _ => .long

theorem kind_numeral (cs : List Char) : kind (numeral cs).value = .numeral := by
  fun_cases numeral cs <;> rfl

theorem kind_nameOrFunction (cs : List Char) : kind (nameOrFunction cs).value = .name := by
  fun_cases nameOrFunction cs with
  | case1 n word rest hr s hs =>
    split at hs
    · -- what follows the parenthesis is an address, malformed or not
      simp only [address] at hs
      split at hs
      · cases hs
      · cases hs
        simp only [Scan.behind, Scan.andThen, Scan.map]
        split <;> rfl
    · cases hs
  | case2 => rfl
  | case3 => rfl

theorem kind_single (c : Char) : kind (single c) = .single := by
  unfold single
  split <;> rfl

theorem single_injective {c d : Char} (h : single c = single d) : c = d := by
  unfold single at h
  split at h <;> split at h <;> cases h <;> rfl

/-- A mark is no blank, no number and no name, and if it is a single character, it is
read from that. -/
theorem kind_mark (c : Char) (cs : List Char) :
    (mark c cs).value = single c ∧ (mark c cs).source = [c] ∨ kind (mark c cs).value = .long := by
  fun_cases mark c cs with
  | case1 =>
    right
    simp only [Scan.behind, Scan.map]
    split <;> rfl
  | case2 | case3 | case4 | case5 | case6 => exact .inr rfl
  | case7 | case8 => exact .inl ⟨rfl, rfl⟩

/-- The token of a single character is read from that character. -/
theorem source_next_of_single {c d : Char} {cs : List Char} (h : (next c cs).value = single d) :
    (next c cs).source = [d] := by
  have hkind : kind (next c cs).value = .single := by rw [h, kind_single]
  revert h hkind
  fun_cases next c cs with
  | case1 | case3 =>
    intro _ hkind
    cases hkind
  | case2 =>
    intro _ hkind
    rw [kind_numeral] at hkind
    cases hkind
  | case4 =>
    intro _ hkind
    rw [kind_nameOrFunction] at hkind
    cases hkind
  | case5 =>
    intro h hkind
    rcases kind_mark c cs with ⟨hvalue, hsource⟩ | hlong
    · rw [hsource, single_injective (hvalue.symm.trans h)]
    · rw [hlong] at hkind
      cases hkind

/-! ## What a lexeme sees of the text behind it -/

/-- The rest of a mark that hides a sheet stands at the head of the text. -/
def startsHiding (cs : List Char) : Bool := ['!', '-', '-'].isPrefixOf cs

/-- The texts show the same to a lexeme of the token. -/
structure AkinBehind (token : Token) (cs ds : List Char) : Prop extends Akin cs ds where
  quote : ∀ name, token = .function name → startsQuote ds = startsQuote cs
  bracket : token = .delim '<' → startsHiding ds = startsHiding cs

/-- Texts that are alike show the same to every lexeme. -/
theorem Alike.behind {cs ds : List Char} (token : Token) (h : Alike cs ds) :
    AkinBehind token cs ds where
  toAkin := h.akin
  quote _ _ :=
    (h.dropWhile fun _ => isSpace_stop).any_head fun _ hc => by
      apply eq_false_of_isStop hc <;> rfl
  bracket _ := h.isPrefixOf_eq (by simp [isStop])

/-! ## Names, functions and marks -/

theorem nameOrFunction_of_ne {cs : List Char} (h : (name cs).rest.head? ≠ some '(') :
    nameOrFunction cs = (name cs).map fun n => .ident (String.ofList n) := by
  fun_cases nameOrFunction cs with
  | case1 n word rest hr =>
    rw [hr] at h
    exact absurd rfl h
  | case2 n word rest hr =>
    rw [hr] at h
    exact absurd rfl h
  | case3 => rfl

theorem nameOrFunction_append {cs ds : List Char}
    (h : AkinBehind (nameOrFunction cs).value (nameOrFunction cs).rest ds) :
    nameOrFunction ((nameOrFunction cs).source ++ ds) =
      ⟨(nameOrFunction cs).value, (nameOrFunction cs).source, ds⟩ := by
  revert h
  fun_cases nameOrFunction cs with
  | case1 n word rest hr s hs =>
    intro h
    have hrest : Akin n.rest ('(' :: (s.source ++ ds)) := by
      rw [hr]
      refine .cons '(' (Akin.of_splits ?_ h.toAkin)
      split at hs
      · exact address_splits hs
      · cases hs
    have hn : name (n.source ++ '(' :: (s.source ++ ds)) =
      ⟨n.value, n.source, '(' :: (s.source ++ ds)⟩ := local_name hrest
    have hs' : (if Text.sameAscii word "url" then address (s.source ++ ds) else none) =
        some ⟨s.value, s.source, ds⟩ := by
      split at hs
      · rename_i hurl
        rw [if_pos hurl]
        exact address_append hs h.toAkin
      · cases hs
    simp only [Scan.behind, List.append_assoc, List.cons_append, List.nil_append]
    rw [nameOrFunction]
    simp only [hn]
    rw [show String.ofList n.value = word from rfl, hs']
    simp only [Scan.behind, List.append_assoc, List.singleton_append]
  | case2 n word rest hr hs =>
    intro h
    have hn : name (n.source ++ '(' :: ds) = ⟨n.value, n.source, '(' :: ds⟩ := by
      apply local_name
      rw [hr]
      exact .cons '(' h.toAkin
    have hs' : (if Text.sameAscii word "url" then address ds else none) = none := by
      split at hs
      · rename_i hurl
        rw [if_pos hurl]
        exact address_eq_none_iff.2 ((h.quote word rfl).trans (address_eq_none_iff.1 hs))
      · rename_i hurl
        rw [if_neg hurl]
    simp only [List.append_assoc, List.singleton_append]
    rw [nameOrFunction]
    simp only [hn]
    rw [show String.ofList n.value = word from rfl, hs']
  | case3 n word hne =>
    intro h
    have hn : name (n.source ++ ds) = ⟨n.value, n.source, ds⟩ := local_name h.toAkin
    change nameOrFunction (n.source ++ ds) = ⟨.ident word, n.source, ds⟩
    rw [nameOrFunction_of_ne, hn]
    · rfl
    · rw [hn]
      intro hp
      obtain ⟨ds', rfl⟩ := List.head?_eq_some_iff.1 hp
      obtain ⟨cs', hcs⟩ := Akin.cons_of_not_stop' (by decide) h.toAkin
      exact hne cs' hcs

/-- Two hyphens in front of an angle bracket are a name, where they are no mark. -/
theorem nameOrFunction_arrow (cs : List Char) :
    nameOrFunction ('-' :: '-' :: '>' :: cs) = ⟨.ident "--", ['-', '-'], '>' :: cs⟩ := by
  have hname : name ('-' :: '-' :: '>' :: cs) = ⟨['-', '-'], ['-', '-'], '>' :: cs⟩ := by
    simp [name, isNameChar, isNameStart, Scan.map, Scan.behind, withoutNul]
  rw [nameOrFunction_of_ne (by simp [hname]), hname]
  rfl

theorem any_head_hash {cs ds : List Char} (h : Akin cs ds) :
    (startsName ds || ds.head?.any fun d => d.isDigit || d == '-') =
      (startsName cs || cs.head?.any fun d => d.isDigit || d == '-') := by
  rw [h.name, h.any_head fun _ hc => by apply eq_false_of_isStop hc <;> rfl]

/-- In front of an equals sign, a character that opens no string is half of a comparison
or stands alone. -/
theorem mark_equals {c : Char} (hc : ¬ (c == '"' || c == '\'') = true) (cs : List Char) :
    mark c ('=' :: cs) =
      if c == '~' || c == '|' || c == '^' || c == '$' || c == '*' then
        ⟨.comparison, [c, '='], cs⟩
      else ⟨single c, [c], '=' :: cs⟩ := by
  have hname : startsName ('=' :: cs) = false := by simp [startsName, isNameStart]
  unfold mark
  rw [if_neg hc, if_neg (by simp [hname]), if_neg (by simp [hname])]
  split
  case h_1 heq => cases heq
  case h_2 heq => cases heq
  case h_3 heq =>
    cases heq
    rfl
  case h_4 hne _ _ => exact (hne cs rfl).elim

theorem mark_append {c : Char} {cs ds : List Char}
    (h : AkinBehind (mark c cs).value (mark c cs).rest ds) :
    mark c ((mark c cs).source.tail ++ ds) = ⟨(mark c cs).value, (mark c cs).source, ds⟩ := by
  revert h
  fun_cases mark c cs with
  | case1 _ _ hc =>
    intro h
    simp only [Scan.behind, Scan.map, List.cons_append, List.nil_append, List.tail_cons]
    unfold mark
    rw [if_pos hc, local_stringBody c h.toAkin]
    rfl
  | case2 _ _ hc hhash =>
    intro h
    have hlook := any_head_hash (Akin.of_splits (name_splits cs) h.toAkin)
    simp only [Scan.behind, Scan.map, List.cons_append, List.nil_append, List.tail_cons]
    unfold mark
    rw [if_neg hc, if_pos (by rw [hlook]; exact hhash), local_name h.toAkin]
    rfl
  | case3 _ _ hc hhash hat =>
    intro h
    have hlook := Akin.of_splits (name_splits cs) h.toAkin
    simp only [Scan.behind, Scan.map, List.cons_append, List.nil_append, List.tail_cons]
    unfold mark
    rw [if_neg hc, if_neg (by rw [any_head_hash hlook]; exact hhash),
      if_pos (by rw [hlook.name]; exact hat), local_name h.toAkin]
    rfl
  | case4 rest =>
    intro h
    simp only [Scan.behind, Scan.map, List.cons_append, List.nil_append, List.tail_cons]
    change ((commentBody ((commentBody rest).source ++ ds)).map
      fun text => comment (String.ofList text)).behind ['/', '*'] = _
    rw [local_commentBody h.toAkin]
    rfl
  | case5 => exact fun _ => rfl
  | case6 _ _ hcomparison hc =>
    intro _
    change mark _ ('=' :: ds) = _
    rw [mark_equals hc, if_pos hcomparison]
  | case7 _ _ hcomparison hc =>
    intro h
    obtain ⟨ds, rfl⟩ := h.cons_of_not_stop (by decide)
    change mark _ ('=' :: ds) = _
    rw [mark_equals hc, if_neg hcomparison]
  | case8 _ _ hcomment hmark hne hc hhash hat =>
    intro h
    change mark c ds = ⟨single c, [c], ds⟩
    have hlook : Akin cs ds := h.toAkin
    -- whatever else `c` may begin in front of `ds` it would begin in front of `cs`
    fun_cases mark c ds with
    | case1 _ _ hc' => exact absurd hc' hc
    | case2 _ _ _ hhash' => exact absurd (by rwa [any_head_hash hlook] at hhash') hhash
    | case3 _ _ _ _ hat' => exact absurd (by rwa [hlook.name] at hat') hat
    | case4 =>
      obtain ⟨cs', rfl⟩ := Akin.cons_of_not_stop' (by decide) hlook
      exact (hcomment cs' rfl rfl).elim
    | case5 =>
      have hhiding : startsHiding cs = true := (h.bracket rfl).symm
      obtain ⟨cs', rfl⟩ := List.isPrefixOf_iff_prefix.1 hhiding
      exact (hmark cs' rfl rfl).elim
    | case6 =>
      obtain ⟨cs', rfl⟩ := Akin.cons_of_not_stop' (by decide) hlook
      exact (hne cs' rfl).elim
    | case7 =>
      obtain ⟨cs', rfl⟩ := Akin.cons_of_not_stop' (by decide) hlook
      exact (hne cs' rfl).elim
    | case8 => rfl

/-! ## One lexeme -/

theorem source_next_eq_cons (c : Char) (cs : List Char) :
    (next c cs).source = c :: (next c cs).source.tail := by
  have hsplits := next_splits c cs
  cases h : (next c cs).source with
  | nil => exact absurd h (source_next_ne_nil c cs)
  | cons d src =>
    rw [Scan.Splits, h, List.cons_append] at hsplits
    rw [(List.cons.inj hsplits).1, List.tail_cons]

/-- What is read as one lexeme is read so in front of any text that shows the same
to it. -/
theorem next_append {c : Char} {cs ds : List Char}
    (h : AkinBehind (next c cs).value (next c cs).rest ds) :
    next c ((next c cs).source.tail ++ ds) = ⟨(next c cs).value, (next c cs).source, ds⟩ := by
  have hlook : Akin (c :: cs) (c :: ((next c cs).source.tail ++ ds)) := by
    have := Akin.of_splits (next_splits c cs) h.toAkin
    rwa [source_next_eq_cons, List.cons_append] at this
  have hsplits := next_splits c cs
  have hsource := source_next_eq_cons c cs
  revert h hlook hsplits hsource
  fun_cases next c cs with
  | case1 hc =>
    intro h _ _ _
    simp only [Scan.behind, Scan.map, List.cons_append, List.nil_append, List.tail_cons]
    rw [next, if_pos hc, local_run (fun _ => isSpace_stop) h.toAkin]
    rfl
  | case2 hc hnumber =>
    intro h hlook _ hsource
    have hn := local_numeral h.toAkin
    rw [hsource, List.cons_append] at hn
    rw [next, if_neg hc, if_pos (by rw [hlook.number]; exact hnumber), hn, ← hsource]
  | case3 hc hnumber hprefix =>
    intro _ _ _ _
    obtain ⟨rest, hrest⟩ := List.isPrefixOf_iff_prefix.1 hprefix
    cases hrest
    rfl
  | case4 hc hnumber hprefix hname =>
    intro h hlook hsplits hsource
    have hn := nameOrFunction_append h
    have harrow : ¬ ['-', '-', '>'].isPrefixOf
        ((nameOrFunction (c :: cs)).source ++ ds) = true := by
      intro harrow
      obtain ⟨rest, hrest⟩ := List.isPrefixOf_iff_prefix.1 harrow
      rw [← hrest] at hn
      change nameOrFunction ('-' :: '-' :: '>' :: rest) = _ at hn
      rw [nameOrFunction_arrow, Scan.mk.injEq] at hn
      obtain ⟨-, hword, rfl⟩ := hn
      obtain ⟨rest', hrest'⟩ := Akin.cons_of_not_stop' (by decide) h.toAkin
      rw [Scan.Splits, ← hword, hrest'] at hsplits
      exact hprefix (by rw [← hsplits]; rfl)
    rw [hsource, List.cons_append] at hn harrow
    rw [next, if_neg hc, if_neg (by rw [hlook.number]; exact hnumber), if_neg harrow,
      if_pos (by rw [hlook.name]; exact hname), hn, ← hsource]
  | case5 hc hnumber hprefix hname =>
    intro h hlook _ _
    have harrow : ¬ ['-', '-', '>'].isPrefixOf (c :: ((mark c cs).source.tail ++ ds)) = true := by
      intro harrow
      obtain ⟨rest, hrest⟩ := List.isPrefixOf_iff_prefix.1 harrow
      have := hlook.name
      rw [← hrest] at this
      exact hname this.symm
    rw [next, if_neg hc, if_neg (by rw [hlook.number]; exact hnumber), if_neg harrow,
      if_neg (by rw [hlook.name]; exact hname), mark_append h]

end CssPruning.Token

namespace CssPruning

open Token

/-! ## All lexemes -/

/-- The lexeme of a semicolon. -/
def semicolonAt (start : Nat) : Lexeme := ⟨.semicolon, [';'], start⟩

@[simp] theorem tokenizeFrom_nil (start : Nat) : tokenizeFrom start [] = [] := by
  rw [tokenizeFrom]

theorem tokenizeFrom_cons (start : Nat) (c : Char) (cs : List Char) :
    tokenizeFrom start (c :: cs) = ⟨(next c cs).value, (next c cs).source, start⟩ ::
      tokenizeFrom (start + (next c cs).source.length) (next c cs).rest := by
  rw [tokenizeFrom]

theorem source_eq_of_mem_tokenizeFrom {start : Nat} {c : Char} {cs : List Char} {l : Lexeme}
    (hl : l ∈ tokenizeFrom start cs) (h : l.token = single c) : l.source = [c] := by
  fun_induction tokenizeFrom start cs with
  | case1 => cases hl
  | case2 start d ds s _ ih =>
    rcases List.mem_cons.1 hl with rfl | hl
    · exact source_next_of_single h
    · exact ih hl

/-- The lexemes behind some of a text are those of what is left of it. -/
theorem exists_of_tokenizeFrom_eq_append {start : Nat} {cs : List Char} {ls ls' : List Lexeme}
    (h : tokenizeFrom start cs = ls ++ ls') :
    ∃ ds, cs = ls.flatMap Lexeme.source ++ ds ∧
      ls' = tokenizeFrom (start + (ls.flatMap Lexeme.source).length) ds := by
  induction ls generalizing start cs with
  | nil => exact ⟨cs, rfl, h.symm⟩
  | cons m ls ih =>
    cases cs with
    | nil => simp at h
    | cons c cs =>
      rw [tokenizeFrom_cons, List.cons_append, List.cons.injEq] at h
      obtain ⟨hm, h⟩ := h
      obtain ⟨ds, hrest, hbehind⟩ := ih h
      refine ⟨ds, ?_, ?_⟩
      · rw [List.flatMap_cons, ← hm, List.append_assoc, ← hrest]
        exact (next_splits c cs).symm
      · rw [hbehind, List.flatMap_cons, ← hm, List.length_append, Nat.add_assoc]

/-- Each lexeme is the next one of the text at its place, and the others behind it are those of
what it leaves. -/
theorem exists_of_tokenizeFrom_eq_append_cons {start : Nat} {cs : List Char}
    {ls ls' : List Lexeme} {l : Lexeme} (h : tokenizeFrom start cs = ls ++ l :: ls') :
    ∃ c ds, cs = ls.flatMap Lexeme.source ++ c :: ds ∧
      l = ⟨(next c ds).value, (next c ds).source, start + (ls.flatMap Lexeme.source).length⟩ ∧
      ls' = tokenizeFrom (start + (ls.flatMap Lexeme.source).length + (next c ds).source.length)
        (next c ds).rest := by
  obtain ⟨ds, hcs, hbehind⟩ := exists_of_tokenizeFrom_eq_append h
  cases ds with
  | nil => simp at hbehind
  | cons c ds =>
    rw [tokenizeFrom_cons, List.cons.injEq] at hbehind
    exact ⟨c, ds, hcs, hbehind⟩

/-- A lexeme starts behind those in front of it. -/
theorem start_eq_of_tokenizeFrom {start : Nat} {cs : List Char} {ls ls' : List Lexeme} {l : Lexeme}
    (h : tokenizeFrom start cs = ls ++ l :: ls') :
    l.start = start + (ls.flatMap Lexeme.source).length := by
  obtain ⟨c, ds, -, rfl, -⟩ := exists_of_tokenizeFrom_eq_append_cons h
  rfl

/-- The lexemes of a text that a stop of its own follows are there whatever stop
follows, or none, and the others are those of what follows. -/
theorem tokenizeFrom_append {start : Nat} {stop : Char} {cs ds : List Char} {ls : List Lexeme}
    (hstop : isStop stop = true)
    (h : tokenizeFrom start (cs ++ [stop]) = ls ++ [⟨single stop, [stop], start + cs.length⟩])
    (hds : Stopped ds) :
    tokenizeFrom start (cs ++ ds) = ls ++ tokenizeFrom (start + cs.length) ds := by
  induction ls generalizing start cs with
  | nil =>
    have hsource := flatMap_source_tokenizeFrom start (cs ++ [stop])
    rw [h] at hsource
    have hcs : cs = [] := by simpa using hsource
    rw [hcs]
    rfl
  | cons l ls ih =>
    cases cs with
    | nil =>
      -- one character is one lexeme
      rw [List.nil_append, tokenizeFrom_cons, List.cons_append, List.cons.injEq] at h
      have hrest : (next stop []).rest = [] := by
        rcases eq_of_isStop hstop with rfl | rfl | rfl <;> rfl
      rw [hrest, tokenizeFrom_nil] at h
      simp at h
    | cons c cs =>
      rw [List.cons_append, tokenizeFrom_cons, List.cons_append, List.cons.injEq] at h
      have hsplits := next_splits c (cs ++ [stop])
      have hsource := source_next_eq_cons c (cs ++ [stop])
      generalize hnext : next c (cs ++ [stop]) = s at h hsplits hsource
      rw [Scan.Splits, hsource, List.cons_append] at hsplits
      have htail : s.source.tail ++ s.rest = cs ++ [stop] := (List.cons.inj hsplits).2
      obtain ⟨cs', hrest⟩ : ∃ cs', s.rest = cs' ++ [stop] := by
        rcases List.append_eq_append_iff.1 htail with ⟨cs', -, hrest⟩ | ⟨es, -, hrest⟩
        · exact ⟨cs', hrest⟩
        · rcases List.append_eq_singleton_iff.1 hrest.symm with ⟨-, hrest⟩ | ⟨-, hnil⟩
          · exact ⟨[], hrest⟩
          · rw [hnil, tokenizeFrom_nil] at h
            simp at h
      rw [hrest, ← List.append_assoc] at htail
      have hcs : s.source.tail ++ cs' = cs := List.append_cancel_right htail
      have hlength : start + s.source.length + cs'.length = start + (c :: cs).length := by
        rw [hsource, ← hcs, List.length_cons, List.length_cons, List.length_append]
        omega
      have hnext' : next c (cs ++ ds) = ⟨s.value, s.source, cs' ++ ds⟩ := by
        have hlook : Alike s.rest (cs' ++ ds) := by
          rw [hrest]
          exact (Alike.stop hstop hds).append cs'
        rw [← hnext] at hlook
        have := next_append (hlook.behind _)
        rwa [hnext, ← List.append_assoc, hcs] at this
      have hothers : tokenizeFrom (start + s.source.length) (cs' ++ ds) =
          ls ++ tokenizeFrom (start + s.source.length + cs'.length) ds := by
        apply ih
        rw [← hrest, hlength]
        exact h.2
      rw [List.cons_append, tokenizeFrom_cons, hnext', List.cons_append, ← h.1]
      simp only [hothers, hlength]

end CssPruning
