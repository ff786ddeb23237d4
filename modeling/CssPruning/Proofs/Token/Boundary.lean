import CssPruning.Proofs.Token.Word

/-!
# Where one lexeme ends and the next one starts

What a text shows to the lexeme in front of it is told by its first lexeme alone
(`akin_of_next`), the two lexemes apart that look further.  So a lexeme stands in
front of one text if it does in front of another one that starts with the same lexeme
(`Lexeme.StandsBefore.of_head`), and lexemes up to a closing bracket stand in front of
any text at all (`Lexeme.bareTokens_append_closing`).
-/

set_option autoImplicit false

namespace CssPruning

namespace Token

/-! ## What the first lexeme tells -/

/-- What a name starts with, behind a hyphen, is no digit. -/
theorem startsName_hyphen_of_isDigit {c : Char} (hc : c.isDigit = true) (cs : List Char) :
    startsName ('-' :: c :: cs) = false ∧ startsName (c :: cs) = false := by
  have hne : ∀ {d : Char}, d.isDigit = false → c ≠ d := by
    rintro d hd rfl
    rw [hc] at hd
    cases hd
  have halpha : c.isAlpha = false := by
    cases h : c.isAlpha with
    | false => rfl
    | true => rw [isDigit_of_isAlpha h] at hc; cases hc
  have hcode : ¬ 0x80 ≤ c.toNat := by
    have := toNat_of_isDigit hc
    omega
  have hstart : isNameStart c = false := by
    simp [isNameStart, halpha, hne (d := '_') rfl, hne (d := '\x00') rfl, hcode]
  have hback : ¬ (c == '\\') = true := by simp [hne (d := '\\') rfl]
  rw [startsName_hyphen, startsName_cons (hne rfl), if_neg hback]
  exact ⟨by simp [hstart, hne (d := '-') rfl, hne (d := '\\') rfl], hstart⟩

/-- No name starts where a number does. -/
theorem startsName_of_startsNumber {cs : List Char} (h : startsNumber cs = true) :
    startsName cs = false := by
  cases cs with
  | nil => rfl
  | cons c cs =>
    cases hsign : isNumberSign c with
    | false =>
      rw [startsNumber_cons hsign, Bool.or_eq_true, Bool.and_eq_true, beq_iff_eq] at h
      rcases h with hc | ⟨rfl, -⟩
      · exact (startsName_hyphen_of_isDigit hc cs).2
      · rfl
    | true =>
      rw [startsNumber_sign_cons hsign, Bool.and_eq_true] at h
      rw [isNumberSign, Bool.or_eq_true, beq_iff_eq, beq_iff_eq] at hsign
      rcases hsign with rfl | rfl
      · rfl
      · cases cs with
        | nil => rfl
        | cons d cs =>
          have hd : isNumberSign d = false := by simpa using h.1
          rw [startsNumber_cons hd, Bool.or_eq_true, Bool.and_eq_true, beq_iff_eq] at h
          rcases h.2 with hd | ⟨rfl, -⟩
          · exact (startsName_hyphen_of_isDigit hd cs).1
          · rfl

theorem eq_of_isSpace {c : Char} (h : isSpace c = true) :
    c = ' ' ∨ c = '\t' ∨ c = '\n' ∨ c = '\r' ∨ c = '\x0c' := by
  simpa [isSpace, or_assoc] using h

theorem isBlank_of_isSpace {c : Char} (h : isSpace c = true) : Text.isBlank c = true := by
  rcases eq_of_isSpace h with rfl | rfl | rfl | rfl | rfl <;> rfl

/-- A name starts where one is read, or two hyphens as a part of a mark. -/
theorem startsName_iff (c : Char) (cs : List Char) : startsName (c :: cs) = true ↔
    kind (next c cs).value = .name ∨ (next c cs).value = .hidingMark ∧ c = '-' := by
  fun_cases next c cs with
  | case1 hc =>
    refine iff_of_false ?_ (by simp [Scan.behind, Scan.map, kind])
    rcases eq_of_isSpace hc with rfl | rfl | rfl | rfl | rfl <;> exact Bool.false_ne_true
  | case2 hc hnumber =>
    rw [startsName_of_startsNumber hnumber, kind_numeral]
    refine iff_of_false Bool.false_ne_true ?_
    rintro (h | ⟨h, -⟩)
    · cases h
    · have hkind := kind_numeral (c :: cs)
      rw [h] at hkind
      cases hkind
  | case3 hc hnumber hprefix =>
    obtain ⟨rest, hrest⟩ := List.isPrefixOf_iff_prefix.1 hprefix
    cases hrest
    exact iff_of_true rfl (.inr ⟨rfl, rfl⟩)
  | case4 hc hnumber hprefix hname => exact iff_of_true hname (.inl (kind_nameOrFunction _))
  | case5 hc hnumber hprefix hname =>
    refine iff_of_false hname ?_
    rintro (h | ⟨h, rfl⟩)
    · rcases kind_mark c cs with ⟨hvalue, -⟩ | hlong
      · rw [hvalue, kind_single] at h
        cases h
      · rw [hlong] at h
        cases h
    · rw [mark_of_isLone rfl] at h
      cases h

theorem startsNumber_iff (c : Char) (cs : List Char) :
    startsNumber (c :: cs) = true ↔ kind (next c cs).value = .numeral := by
  fun_cases next c cs with
  | case1 hc =>
    refine iff_of_false ?_ Kind.noConfusion
    rcases eq_of_isSpace hc with rfl | rfl | rfl | rfl | rfl <;> exact Bool.false_ne_true
  | case2 hc hnumber => exact iff_of_true hnumber (kind_numeral _)
  | case3 hc hnumber hprefix => exact iff_of_false hnumber Kind.noConfusion
  | case4 hc hnumber hprefix hname =>
    refine iff_of_false hnumber ?_
    rw [kind_nameOrFunction]
    exact Kind.noConfusion
  | case5 hc hnumber hprefix hname =>
    refine iff_of_false hnumber ?_
    rcases kind_mark c cs with ⟨hvalue, -⟩ | hlong
    · rw [hvalue, kind_single]
      exact Kind.noConfusion
    · rw [hlong]
      exact Kind.noConfusion

/-- A number with a sign does not end behind the sign. -/
theorem tail_source_numeral_ne_nil {c : Char} {cs : List Char} (hc : isNumberSign c = true)
    (h : startsNumber (c :: cs) = true) : (numeral (c :: cs)).source.tail ≠ [] := by
  rw [startsNumber_sign_cons hc, Bool.and_eq_true, Bool.not_eq_true'] at h
  have hsign : sign cs = ⟨(), [], cs⟩ := by
    cases cs with
    | nil => rfl
    | cons d cs =>
      have hd : ¬ (d == '+' || d == '-') = true := Bool.eq_false_iff.1 h.1
      rw [sign, if_neg hd]
  -- the number without the sign takes something
  have hdecimal : (decimal (c :: cs)).source = c :: (decimal cs).source := by
    have hc' : (c == '+' || c == '-') = true := hc
    rw [decimal, decimal, hsign, sign, if_pos hc']
    rfl
  have hne := source_decimal_ne_nil h.2
  fun_cases numeral (c :: cs) with
  | case1 n => simp [n, hdecimal]
  | case2 n => simp [n, Scan.andThen, Scan.behind, Scan.map, hdecimal, hne]
  | case3 n => simpa [n, Scan.map, hdecimal] using hne

/-- Behind a sign a digit stands where a number is read and goes on with it. -/
theorem any_isDigit_head (c : Char) (cs : List Char) (hc : isNumberSign c = true) :
    cs.head?.any Char.isDigit = (startsNumber (c :: cs) &&
      (next c cs).source.tail.head?.any Char.isDigit) := by
  have hspace : isSpace c = false := by
    rw [isNumberSign, Bool.or_eq_true, beq_iff_eq, beq_iff_eq] at hc
    rcases hc with rfl | rfl <;> rfl
  cases hnumber : startsNumber (c :: cs) with
  | false =>
    rw [Bool.false_and]
    cases cs with
    | nil => rfl
    | cons d cs =>
      cases hd : d.isDigit with
      | false => exact hd
      | true =>
        have hne : isNumberSign d = false := by
          rw [isNumberSign, Bool.or_eq_false_iff, beq_eq_false_iff_ne, beq_eq_false_iff_ne]
          constructor <;> (rintro rfl; cases hd)
        rw [startsNumber_sign_cons hc, startsNumber_cons hne, hd] at hnumber
        simp [hne] at hnumber
  | true =>
    have hnext : next c cs = numeral (c :: cs) := by
      rw [next, if_neg (by simp [hspace]), if_pos hnumber]
    have hsplits := next_splits c cs
    rw [Scan.Splits, source_next_eq_cons, List.cons_append, List.cons.injEq] at hsplits
    have hne := tail_source_numeral_ne_nil hc hnumber
    rw [← hnext] at hne
    obtain ⟨d, ds, htail⟩ := List.exists_cons_of_ne_nil hne
    rw [htail] at hsplits ⊢
    rw [← hsplits.2]
    rfl

/-- Texts with the same first lexeme show the same to what stands in front of them. -/
theorem akin_of_next {c : Char} {cs ds : List Char}
    (hvalue : (next c ds).value = (next c cs).value)
    (hsource : (next c ds).source = (next c cs).source) : Akin (c :: cs) (c :: ds) := by
  have hnumber : startsNumber (c :: ds) = startsNumber (c :: cs) := by
    rw [Bool.eq_iff_iff, startsNumber_iff, startsNumber_iff, hvalue]
  constructor
  case ne => exact List.cons_ne_nil _ _
  case head => exact fun _ _ => rfl
  case name => rw [Bool.eq_iff_iff, startsName_iff, startsName_iff, hvalue]
  case number => exact hnumber
  case digit =>
    rw [startsDigit, startsDigit, sign_cons, sign_cons]
    split
    · rename_i hc
      rw [any_isDigit_head c cs hc, any_isDigit_head c ds hc, hnumber, hsource]
    · rfl

/-! ## Closing brackets -/

/-- The character that closes the bracket. -/
def closingChar : Bracket → Char
  | .round => ')'
  | .square => ']'
  | .curly => '\x7d'

theorem single_closingChar (b : Bracket) : single (closingChar b) = .closing b := by
  cases b <;> rfl

/-- A closing bracket is a lexeme whatever follows. -/
theorem next_closingChar (b : Bracket) (ds : List Char) :
    next (closingChar b) ds = ⟨.closing b, [closingChar b], ds⟩ := by
  cases b
  · exact mark_of_isLone (c := ')') rfl ds
  · exact mark_of_isLone (c := ']') rfl ds
  · exact next_of_isStop rfl ds

theorem startsHiding_cons {c : Char} (hc : c ≠ '!') (cs : List Char) :
    startsHiding (c :: cs) = false := by
  rw [startsHiding, List.isPrefixOf_cons_cons, beq_eq_false_iff_ne.2 hc.symm, Bool.false_and]

theorem startsHiding_of_not_mem {cs : List Char} (h : '!' ∉ cs) : startsHiding cs = false := by
  cases cs with
  | nil => rfl
  | cons c cs => exact startsHiding_cons (fun hc => h (hc ▸ List.mem_cons_self)) cs

/-- What stands behind a closing bracket shows nothing to what stands in front of it. -/
theorem akinBehind_append_closing (token : Token) {xs : List Char} (hbang : '!' ∉ xs) (b : Bracket)
    (ds ds' : List Char) :
    AkinBehind token (xs ++ closingChar b :: ds) (xs ++ closingChar b :: ds') where
  toAkin := by
    refine Akin.append xs (akin_of_next ?_ ?_) <;> rw [next_closingChar, next_closingChar]
  quote _ _ := by
    have hspace : ¬ isSpace (closingChar b) = true := by cases b <;> exact Bool.false_ne_true
    rw [startsQuote, startsQuote, List.dropWhile_append, List.dropWhile_append]
    split
    · rw [List.dropWhile_cons_of_neg hspace, List.dropWhile_cons_of_neg hspace]
      rfl
    · rename_i hne
      obtain ⟨x, xs', hxs⟩ := List.exists_cons_of_ne_nil (mt List.isEmpty_iff.2 hne)
      rw [hxs]
      rfl
  bracket _ := by
    cases xs with
    | nil =>
      have hclosing : closingChar b ≠ '!' := by cases b <;> decide
      rw [List.nil_append, List.nil_append, startsHiding_cons hclosing, startsHiding_cons hclosing]
    | cons x xs =>
      have hx : x ≠ '!' := fun heq => hbang (heq ▸ List.mem_cons_self)
      rw [List.cons_append, List.cons_append, startsHiding_cons hx, startsHiding_cons hx]

end Token

open Token

/-! ## Lexemes, places apart -/

/-- The lexeme with its place forgotten. -/
def Lexeme.bare (l : Lexeme) : Lexeme := { l with start := 0 }

theorem Lexeme.token_bare (l : Lexeme) : l.bare.token = l.token := rfl

theorem Lexeme.source_bare (l : Lexeme) : l.bare.source = l.source := rfl

/-- The lexemes of the text, places apart. -/
def bareTokens (cs : List Char) : List Lexeme := (tokenize cs).map Lexeme.bare

theorem map_bare_tokenizeFrom (start : Nat) (cs : List Char) :
    (tokenizeFrom start cs).map Lexeme.bare = bareTokens cs := by
  rw [← Nat.add_zero start, tokenizeFrom_add, List.map_map]
  rfl

theorem bareTokens_nil : bareTokens [] = [] := by
  rw [bareTokens, tokenize, tokenizeFrom_nil, List.map_nil]

theorem bareTokens_cons (c : Char) (cs : List Char) : bareTokens (c :: cs) =
    ⟨(next c cs).value, (next c cs).source, 0⟩ :: bareTokens (next c cs).rest := by
  rw [bareTokens, tokenize, tokenizeFrom_cons, List.map_cons, map_bare_tokenizeFrom]
  rfl

namespace Lexeme

/-- The lexeme is read in front of the text. -/
def StandsBefore (l : Lexeme) (ds : List Char) : Prop :=
  (bareTokens (l.source ++ ds)).head? = some l.bare

instance (l : Lexeme) (ds : List Char) : Decidable (l.StandsBefore ds) :=
  inferInstanceAs (Decidable (_ = _))

variable {l : Lexeme} {ds ds' : List Char}

theorem standsBefore_iff : l.StandsBefore ds ↔
    ∃ c cs, l.source = c :: cs ∧ next c (cs ++ ds) = ⟨l.token, l.source, ds⟩ := by
  constructor
  · intro h
    rw [StandsBefore] at h
    cases hsource : l.source with
    | nil =>
      rw [hsource, List.nil_append] at h
      cases ds with
      | nil =>
        rw [bareTokens_nil] at h
        cases h
      | cons d ds =>
        rw [bareTokens_cons, List.head?_cons, Option.some.injEq] at h
        exact absurd ((congrArg source h).trans hsource) (source_next_ne_nil d ds)
    | cons c cs =>
      rw [hsource, List.cons_append, bareTokens_cons, List.head?_cons, Option.some.injEq] at h
      have hnext : (next c (cs ++ ds)).source = c :: cs := (congrArg source h).trans hsource
      have hsplits := next_splits c (cs ++ ds)
      rw [Scan.Splits, hnext, List.cons_append, List.cons.injEq] at hsplits
      refine ⟨c, cs, rfl, ?_⟩
      generalize next c (cs ++ ds) = s at h hnext hsplits
      obtain ⟨value, src, rest⟩ := s
      rw [Scan.mk.injEq]
      exact ⟨congrArg token h, hnext, List.append_cancel_left hsplits.2⟩
  · rintro ⟨c, cs, hsource, hnext⟩
    rw [StandsBefore, hsource, List.cons_append, bareTokens_cons, hnext]
    rfl

/-- The first lexeme of a text is told from the others. -/
theorem bareTokens_append_iff {ls : List Lexeme} :
    bareTokens (l.source ++ ds) = l.bare :: ls ↔ l.StandsBefore ds ∧ bareTokens ds = ls := by
  constructor
  · intro h
    have hstands : l.StandsBefore ds := by
      rw [StandsBefore, h]
      rfl
    obtain ⟨c, cs, hsource, hnext⟩ := standsBefore_iff.1 hstands
    rw [hsource, List.cons_append, bareTokens_cons, hnext, List.cons.injEq] at h
    exact ⟨hstands, h.2⟩
  · rintro ⟨hstands, rfl⟩
    obtain ⟨c, cs, hsource, hnext⟩ := standsBefore_iff.1 hstands
    rw [hsource, List.cons_append, bareTokens_cons, hnext]
    rfl

theorem StandsBefore.of_akin (h : l.StandsBefore ds) (hakin : AkinBehind l.token ds ds') :
    l.StandsBefore ds' := by
  obtain ⟨c, cs, hsource, hnext⟩ := standsBefore_iff.1 h
  have hakin' : AkinBehind (next c (cs ++ ds)).value (next c (cs ++ ds)).rest ds' := by
    rw [hnext]
    exact hakin
  have hnext' := next_append hakin'
  rw [hnext, hsource] at hnext'
  exact standsBefore_iff.2 ⟨c, cs, hsource, by rw [hsource]; exact hnext'⟩

/-- A lexeme that opens nothing stands in front of one text as it does in front of
another one that starts with the same lexeme. -/
theorem StandsBefore.of_head (h : l.StandsBefore ds) (hopens : l.token.opens = none)
    (hbang : '!' ∉ ds) (hbang' : '!' ∉ ds') (hne : ds ≠ [])
    (hhead : (bareTokens ds').head? = (bareTokens ds).head?) : l.StandsBefore ds' := by
  apply h.of_akin
  refine ⟨?_, fun name htoken => ?_, fun _ => ?_⟩
  · cases ds with
    | nil => exact absurd rfl hne
    | cons d ds =>
      cases ds' with
      | nil =>
        rw [bareTokens_nil, bareTokens_cons] at hhead
        cases hhead
      | cons d' ds' =>
        rw [bareTokens_cons, bareTokens_cons, List.head?_cons, List.head?_cons,
          Option.some.injEq] at hhead
        have hsource : (next d' ds').source = (next d ds).source := congrArg source hhead
        have hd : d' = d := by
          rw [source_next_eq_cons d' ds', source_next_eq_cons d ds] at hsource
          exact (List.cons.inj hsource).1
        subst hd
        exact akin_of_next (congrArg token hhead) hsource
  · rw [htoken] at hopens
    cases hopens
  · rw [startsHiding_of_not_mem hbang, startsHiding_of_not_mem hbang']

/-- Lexemes up to a closing bracket stand in front of any text if they do in front of
one. -/
theorem bareTokens_append_closing {b : Bracket} {ls us : List Lexeme} (hl : l.token = .closing b)
    (hbang : '!' ∉ (ls ++ [l]).flatMap source)
    (h : bareTokens ((ls ++ [l]).flatMap source ++ ds) = (ls ++ [l]).map bare ++ us) :
    bareTokens ((ls ++ [l]).flatMap source ++ ds') = (ls ++ [l]).map bare ++ bareTokens ds' := by
  have hsource : l.source = [closingChar b] := by
    have hmem : l.bare ∈ bareTokens ((ls ++ [l]).flatMap source ++ ds) := by
      rw [h]
      simp
    obtain ⟨m, hm, hbare⟩ := List.mem_map.1 hmem
    have htoken : m.token = single (closingChar b) := by
      rw [single_closingChar, ← hl, ← token_bare, hbare, token_bare]
    rw [← source_bare, ← hbare, source_bare]
    exact source_eq_of_mem_tokenizeFrom hm htoken
  have hlast (ls : List Lexeme) (ds : List Char) : (ls ++ [l]).flatMap source ++ ds =
      ls.flatMap source ++ closingChar b :: ds := by
    simp [hsource]
  induction ls with
  | nil =>
    have hstands : l.StandsBefore ds' :=
      standsBefore_iff.2 ⟨_, [], hsource, by rw [List.nil_append, next_closingChar, hl, hsource]⟩
    simpa using bareTokens_append_iff.2 ⟨hstands, rfl⟩
  | cons m ls ih =>
    rw [List.cons_append, List.flatMap_cons, List.mem_append, not_or] at hbang
    rw [List.cons_append, List.flatMap_cons, List.append_assoc, List.map_cons, List.cons_append,
      bareTokens_append_iff] at h ⊢
    refine ⟨h.1.of_akin ?_, ih hbang.2 h.2⟩
    rw [hlast, hlast]
    apply akinBehind_append_closing
    intro hmem
    apply hbang.2
    rw [List.flatMap_append]
    exact List.mem_append_left _ hmem

end Lexeme

end CssPruning
