import CssPruning.Proofs.Token.Boundary

/-!
# What lexemes are decoded from

Names, strings and addresses are decoded character by character: one that stands for
itself, an escape, or, in a string, a backslash that is left out (`Decodes`).  Each
lexeme is spelled as its token says (`spelledAs_next`); only at the end of the text can
the quote of a string or the parenthesis of an address be missing.
-/

set_option autoImplicit false

namespace CssPruning

namespace Token

/-! ## Escapes -/

/-- The characters are decoded as the text.  The closing character stands in them behind
a backslash only. -/
inductive Decodes (closing : Char) : List Char → List Char → Prop where
  | nil : Decodes closing [] []
  | char {c : Char} {cs text : List Char} : c ≠ closing → c ≠ '\\' → Decodes closing cs text →
      Decodes closing (c :: cs) (withoutNul c :: text)
  | escape (cs : List Char) {ds text : List Char} : Decodes closing ds text →
      Decodes closing ('\\' :: ((escape cs).source ++ ds)) ((escape cs).value :: text)
  | gap {gap cs text : List Char} : (∀ c ∈ gap, isSpace c = true) → Decodes closing cs text →
      Decodes closing ('\\' :: (gap ++ cs)) text

theorem withoutNul_of_ne {c : Char} (h : c ≠ '\x00') : withoutNul c = c := if_neg (by simpa using h)

/-- Without backslashes and NULs nothing is decoded. -/
theorem Decodes.eq_of_not_mem {closing : Char} {cs text : List Char} (h : Decodes closing cs text)
    (hback : '\\' ∉ cs) (hnul : '\x00' ∉ cs) : text = cs := by
  induction h with
  | nil => rfl
  | char _ _ _ ih =>
    rw [List.mem_cons, not_or] at hback hnul
    rw [withoutNul_of_ne (Ne.symm hnul.1), ih hback.2 hnul.2]
  | escape => exact absurd List.mem_cons_self hback
  | gap => exact absurd List.mem_cons_self hback

/-- The closing character, or nothing if the text has ended before. -/
def Ends (closing : Char) (close : List Char) (ended : Prop) : Prop :=
  close = [closing] ∨ close = [] ∧ ended

theorem isSpace_of_mem_oneSpace (cs : List Char) :
    ∀ c ∈ (oneSpace cs).source, isSpace c = true := by
  fun_cases oneSpace cs with
  | case1 => simp [isSpace]
  | case2 c _ _ hc => exact List.forall_mem_singleton.2 hc
  | case3 => exact List.forall_mem_nil _
  | case4 => exact List.forall_mem_nil _

theorem decodes_name {closing : Char} (h : isNameChar closing = false) (cs : List Char) :
    Decodes closing (name cs).source (name cs).value := by
  fun_induction name cs with
  | case1 => exact .nil
  | case2 => exact .nil
  | case3 c cs hc _ e _ ih =>
    rw [beq_iff_eq] at hc
    subst hc
    exact .escape cs ih
  | case4 c cs hc hname ih =>
    refine .char ?_ (by simpa using hc) ih
    rintro rfl
    rw [h] at hname
    cases hname
  | case5 => exact .nil

/-- A string is decoded up to its closing quote, or to the end of the text. -/
theorem decodes_stringBody (quote : Char) (cs : List Char) :
    ∀ text ∈ (stringBody quote cs).value, ∃ body close, (stringBody quote cs).source = body ++ close ∧
      Decodes quote body text ∧ Ends quote close ((stringBody quote cs).rest = []) := by
  fun_induction stringBody quote cs with
  | case1 =>
    intro text h
    cases h
    exact ⟨[], [], rfl, .nil, .inr ⟨rfl, rfl⟩⟩
  | case2 c cs hc =>
    intro text h
    cases h
    rw [beq_iff_eq] at hc
    exact ⟨[], [c], rfl, .nil, .inl (by rw [hc])⟩
  | case3 =>
    intro _ h
    cases h
  | case4 c cs hc _ hback =>
    intro text h
    cases h
    rw [beq_iff_eq] at hback
    subst hback
    exact ⟨['\\'], [], rfl, @Decodes.gap _ [] _ _ (List.forall_mem_nil _) .nil, .inr ⟨rfl, rfl⟩⟩
  | case5 c cs hc _ hback _ _ gap _ ih =>
    intro text h
    obtain ⟨body, close, hsource, hdecodes, hends⟩ := ih _ h
    rw [beq_iff_eq] at hback
    subst hback
    refine ⟨'\\' :: ((oneSpace cs).source ++ body), close, ?_,
      .gap (isSpace_of_mem_oneSpace cs) hdecodes, hends⟩
    simp only [Scan.behind, gap] at hsource ⊢
    rw [hsource]
    simp
  | case6 c cs hc _ hback _ _ e _ ih =>
    intro text h
    obtain ⟨tail, htail, rfl⟩ := Option.map_eq_some_iff.1 h
    obtain ⟨body, close, hsource, hdecodes, hends⟩ := ih _ htail
    rw [beq_iff_eq] at hback
    subst hback
    refine ⟨'\\' :: ((escape cs).source ++ body), close, ?_, .escape cs hdecodes, hends⟩
    simp only [Scan.behind, Scan.map, e] at hsource ⊢
    rw [hsource]
    simp
  | case7 c cs hc _ hback ih =>
    intro text h
    obtain ⟨tail, htail, rfl⟩ := Option.map_eq_some_iff.1 h
    obtain ⟨body, close, hsource, hdecodes, hends⟩ := ih _ htail
    refine ⟨c :: body, close, ?_, .char (by simpa using hc) (by simpa using hback) hdecodes, hends⟩
    simp only [Scan.behind, Scan.map] at hsource ⊢
    rw [hsource]
    rfl

theorem eq_of_addressEnd {cs text : List Char} (h : (addressEnd cs).value = some text) :
    text = [] ∧ ∃ gap close, (addressEnd cs).source = gap ++ close ∧
      (∀ c ∈ gap, isSpace c = true) ∧ Ends ')' close ((addressEnd cs).rest = []) := by
  fun_induction addressEnd cs with
  | case1 =>
    cases h
    exact ⟨rfl, [], [], rfl, List.forall_mem_nil _, .inr ⟨rfl, rfl⟩⟩
  | case2 c cs hc =>
    cases h
    rw [beq_iff_eq] at hc
    exact ⟨rfl, [], [c], rfl, List.forall_mem_nil _, .inl (by rw [hc])⟩
  | case3 c cs _ hspace ih =>
    obtain ⟨htext, gap, close, hsource, hgap, hends⟩ := ih h
    exact ⟨htext, c :: gap, close, congrArg (c :: ·) hsource, List.forall_mem_cons.2 ⟨hspace, hgap⟩,
      hends⟩
  | case4 => cases h

/-- An address is decoded up to the blanks behind it, which a closing parenthesis or the
end of the text follows. -/
theorem decodes_addressBody (cs : List Char) :
    ∀ text ∈ (addressBody cs).value, ∃ body gap close,
      (addressBody cs).source = body ++ gap ++ close ∧ Decodes ')' body text ∧
      (∀ c ∈ gap, isSpace c = true) ∧ Ends ')' close ((addressBody cs).rest = []) := by
  fun_induction addressBody cs with
  | case1 =>
    intro text h
    cases h
    exact ⟨[], [], [], rfl, .nil, List.forall_mem_nil _, .inr ⟨rfl, rfl⟩⟩
  | case2 c cs hc =>
    intro text h
    cases h
    rw [beq_iff_eq] at hc
    exact ⟨[], [], [c], rfl, .nil, List.forall_mem_nil _, .inl (by rw [hc])⟩
  | case3 c cs _ hspace =>
    intro text h
    obtain ⟨rfl, gap, close, hsource, hgap, hends⟩ := eq_of_addressEnd h
    exact ⟨[], c :: gap, close, congrArg (c :: ·) hsource, .nil,
      List.forall_mem_cons.2 ⟨hspace, hgap⟩, hends⟩
  | case4 =>
    intro _ h
    cases h
  | case5 =>
    intro _ h
    cases h
  | case6 c cs _ _ _ hback _ e _ ih =>
    intro text h
    obtain ⟨tail, htail, rfl⟩ := Option.map_eq_some_iff.1 h
    obtain ⟨body, gap, close, hsource, hdecodes, hgap, hends⟩ := ih _ htail
    rw [beq_iff_eq] at hback
    subst hback
    refine ⟨'\\' :: ((escape cs).source ++ body), gap, close, ?_, .escape cs hdecodes, hgap, hends⟩
    simp only [Scan.behind, Scan.map, e] at hsource ⊢
    rw [hsource]
    simp
  | case7 c cs hc _ _ hback ih =>
    intro text h
    obtain ⟨tail, htail, rfl⟩ := Option.map_eq_some_iff.1 h
    obtain ⟨body, gap, close, hsource, hdecodes, hgap, hends⟩ := ih _ htail
    refine ⟨c :: body, gap, close, ?_, .char (by simpa using hc) (by simpa using hback) hdecodes,
      hgap, hends⟩
    simp only [Scan.behind, Scan.map] at hsource ⊢
    rw [hsource]
    rfl

/-! ## Lexemes -/

/-- How a token is spelled, as far as what it says is not its source.  Only where the text
has ended can the closing character of a string or of an address be missing. -/
def SpelledAs (source : List Char) (ended : Prop) : Token → Prop
  | .blank => source ≠ [] ∧ ∀ c ∈ source, isSpace c = true
  | .ident name => Decodes '(' source name.toList
  | .function name => ∃ cs, source = cs ++ ['('] ∧ Decodes '(' cs name.toList
  | .hash name => ∃ cs, source = '#' :: cs ∧ Decodes '(' cs name.toList
  | .string text => ∃ quote body close, source = quote :: (body ++ close) ∧
      (quote = '"' ∨ quote = '\'') ∧ Decodes quote body text.toList ∧ Ends quote close ended
  | .url address => ∃ cs name gap body gap' close,
      source = cs ++ '(' :: (gap ++ (body ++ gap' ++ close)) ∧ Decodes '(' cs name ∧
      Text.sameAscii (String.ofList name) "url" = true ∧
      (∀ c ∈ gap, isSpace c = true) ∧ Decodes ')' body address.toList ∧
      (∀ c ∈ gap', isSpace c = true) ∧ Ends ')' close ended
  | .percentage => source.getLast? = some '%'
  | .dimension unit => ∃ digits cs, source = digits ++ cs ∧ Decodes '(' cs unit.toList
  | .colon => source = [':']
  | .comma => source = [',']
  | .opening .round => source = ['(']
  | .closing b => source = [closingChar b]
  | .delim c => source = [c]
  | _ => True

theorem spelledAs_numeral (cs : List Char) :
    SpelledAs (numeral cs).source ((numeral cs).rest = []) (numeral cs).value := by
  fun_cases numeral cs with
  | case1 n cs hr => exact List.getLast?_concat
  | case2 n hname =>
    refine ⟨n.source, (name n.rest).source, rfl, ?_⟩
    rw [String.toList_ofList]
    exact decodes_name rfl n.rest
  | case3 => trivial

theorem spelledAs_nameOrFunction (cs : List Char) : SpelledAs (nameOrFunction cs).source
    ((nameOrFunction cs).rest = []) (nameOrFunction cs).value := by
  have hname : Decodes '(' (name cs).source (String.ofList (name cs).value).toList := by
    rw [String.toList_ofList]
    exact decodes_name rfl cs
  fun_cases nameOrFunction cs with
  | case1 n word rest hr s hs =>
    split at hs
    · rename_i hurl
      rw [address] at hs
      split at hs
      · cases hs
      · cases hs
        simp only [Scan.andThen, Scan.behind, Scan.map]
        cases htext : (addressBody (run isSpace rest).rest).value with
        | none => trivial
        | some text =>
          obtain ⟨body, gap', close, hsource, hbody, hgap', hends⟩ := decodes_addressBody _ _ htext
          refine ⟨n.source, n.value, (run isSpace rest).source, body, gap', close, ?_,
            decodes_name rfl cs, hurl, ?_, ?_, hgap', hends⟩
          · rw [hsource]
            simp
          · exact List.all_eq_true.1 List.all_takeWhile
          · rwa [String.toList_ofList]
    · cases hs
  | case2 n word rest hr hs => exact ⟨n.source, rfl, hname⟩
  | case3 n => exact hname

theorem spelledAs_single (c : Char) (ended : Prop) : SpelledAs [c] ended (single c) := by
  fun_cases single c <;> first | rfl | trivial

theorem spelledAs_mark (c : Char) (cs : List Char) :
    SpelledAs (mark c cs).source ((mark c cs).rest = []) (mark c cs).value := by
  fun_cases mark c cs with
  | case1 c cs hc =>
    simp only [Scan.behind, Scan.map]
    have hquote : c = '"' ∨ c = '\'' := by simpa using hc
    cases htext : (stringBody c cs).value with
    | none => trivial
    | some text =>
      obtain ⟨body, close, hsource, hbody, hends⟩ := decodes_stringBody _ _ _ htext
      refine ⟨c, body, close, by rw [hsource]; rfl, hquote, ?_, hends⟩
      rwa [String.toList_ofList]
  | case2 c cs _ hc =>
    rw [Bool.and_eq_true, beq_iff_eq] at hc
    refine ⟨(name cs).source, by rw [hc.1]; rfl, ?_⟩
    rw [String.toList_ofList]
    exact decodes_name rfl cs
  | case3 => trivial
  | case4 => trivial
  | case5 => trivial
  | case6 => trivial
  | case7 => exact spelledAs_single _ _
  | case8 => exact spelledAs_single _ _

theorem spelledAs_next (c : Char) (cs : List Char) :
    SpelledAs (next c cs).source ((next c cs).rest = []) (next c cs).value := by
  fun_cases next c cs with
  | case1 hc =>
    refine ⟨List.cons_ne_nil _ _, List.forall_mem_cons.2 ⟨hc, ?_⟩⟩
    exact List.all_eq_true.1 List.all_takeWhile
  | case2 => exact spelledAs_numeral _
  | case3 => trivial
  | case4 => exact spelledAs_nameOrFunction _
  | case5 => exact spelledAs_mark c cs

end Token

open Token

/-- The lexeme is spelled as its token says. -/
def Lexeme.Spelled (l : Lexeme) (ended : Prop) : Prop := SpelledAs l.source ended l.token

/-- A lexeme of a text is spelled as its token says, and the text has ended behind it if
no other one follows. -/
theorem spelled_of_tokenizeFrom {start : Nat} {cs : List Char} {ls ls' : List Lexeme}
    {l : Lexeme} (h : tokenizeFrom start cs = ls ++ l :: ls') : l.Spelled (ls' = []) := by
  obtain ⟨c, ds, -, rfl, hbehind⟩ := exists_of_tokenizeFrom_eq_append_cons h
  have hrest : ls' = [] ↔ (next c ds).rest = [] := by
    rw [hbehind]
    cases (next c ds).rest with
    | nil => exact iff_of_true (tokenizeFrom_nil _) rfl
    | cons d ds => simp [tokenizeFrom_cons]
  rw [Lexeme.Spelled, hrest]
  exact spelledAs_next c ds

end CssPruning
