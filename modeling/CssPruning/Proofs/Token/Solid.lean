import CssPruning.Proofs.Token.Boundary
import CssPruning.Proofs.Text.Squeeze

/-!
# The lexemes of a text that are no blanks

Blanks between tokens say nothing but that they are there.  `solid` leaves them out, and
so is the same for a text and that text behind more spaces.

An identifier, a function and an address are all read by the scanner of names, and the
cases of what follows the name tell them apart (`nameOrFunction_cases`).
-/

set_option autoImplicit false

namespace CssPruning.Token

open Text

variable {c : Char} {cs : List Char}

/-! ## Tokens of names -/

theorem value_next_eq_blank_iff (c : Char) (cs : List Char) :
    (next c cs).value = .blank ↔ isSpace c = true := by
  fun_cases next c cs with
  | case1 hc => exact iff_of_true rfl hc
  | case2 hc =>
    refine iff_of_false (fun h => ?_) hc
    have hkind := kind_numeral (c :: cs)
    rw [h] at hkind
    cases hkind
  | case3 hc => exact iff_of_false Token.noConfusion hc
  | case4 hc =>
    refine iff_of_false (fun h => ?_) hc
    have hkind := kind_nameOrFunction (c :: cs)
    rw [h] at hkind
    cases hkind
  | case5 hc =>
    refine iff_of_false (fun h => ?_) hc
    rcases kind_mark c cs with ⟨hvalue, -⟩ | hlong
    · have hkind := kind_single c
      rw [← hvalue, h] at hkind
      cases hkind
    · rw [h] at hlong
      cases hlong

theorem value_next_ne_blank (hc : isSpace c = false) (cs : List Char) :
    (next c cs).value ≠ .blank := by
  rw [Ne, value_next_eq_blank_iff, hc]
  exact Bool.false_ne_true

theorem rest_next_of_isSpace (hc : isSpace c = true) (cs : List Char) :
    (next c cs).rest = cs.dropWhile isSpace := by
  rw [next, if_pos hc]
  rfl

/-- A token of a name is read by the scanner of names. -/
theorem next_of_kind_name (h : kind (next c cs).value = .name) :
    next c cs = nameOrFunction (c :: cs) := by
  revert h
  fun_cases next c cs with
  | case1 | case3 => exact fun h => by cases h
  | case2 =>
    intro h
    rw [kind_numeral] at h
    cases h
  | case4 => exact fun _ => rfl
  | case5 =>
    intro h
    rcases kind_mark c cs with ⟨hvalue, -⟩ | hlong
    · rw [hvalue, kind_single] at h
      cases h
    · rw [hlong] at h
      cases h

/-- A name alone is an identifier, one with a parenthesis behind it a function, unless that
has an address in it. -/
theorem nameOrFunction_cases (cs : List Char) :
    ((name cs).rest.head? ≠ some '(' ∧
      nameOrFunction cs = (name cs).map fun n => .ident (String.ofList n)) ∨
    ∃ rest, (name cs).rest = '(' :: rest ∧
      (nameOrFunction cs =
          ⟨.function (String.ofList (name cs).value), (name cs).source ++ ['('], rest⟩ ∨
        sameAscii (String.ofList (name cs).value) "url" = true ∧ ∃ s, address rest = some s ∧
          nameOrFunction cs = s.behind ((name cs).source ++ ['('])) := by
  by_cases hparen : (name cs).rest.head? = some '('
  · right
    obtain ⟨rest, hrest⟩ := List.head?_eq_some_iff.1 hparen
    refine ⟨rest, hrest, ?_⟩
    rw [nameOrFunction]
    simp only [hrest]
    split
    · rename_i s hs
      split at hs
      · rename_i hurl
        exact .inr ⟨hurl, s, hs, rfl⟩
      · cases hs
    · exact .inl rfl
  · exact .inl ⟨hparen, nameOrFunction_of_ne hparen⟩

theorem kind_address {s : Scan Token} (h : address cs = some s) :
    s.value = .badUrl ∨ ∃ text, s.value = .url text := by
  simp only [address] at h
  split at h
  · cases h
  · cases h
    simp only [Scan.andThen, Scan.behind, Scan.map]
    split
    · exact .inr ⟨_, rfl⟩
    · exact .inl rfl

theorem name_of_ident {text : String} (h : (nameOrFunction cs).value = .ident text) :
    text = String.ofList (name cs).value ∧ (nameOrFunction cs).rest = (name cs).rest := by
  rcases nameOrFunction_cases cs with ⟨-, heq⟩ | ⟨rest, -, heq | ⟨-, s, hs, heq⟩⟩
  · rw [heq] at h ⊢
    exact ⟨(Token.ident.inj h).symm, rfl⟩
  · rw [heq] at h
    cases h
  · rw [heq] at h
    rcases kind_address hs with hvalue | ⟨text, hvalue⟩ <;>
      (rw [Scan.behind, hvalue] at h; cases h)

theorem name_of_function {text : String} (h : (nameOrFunction cs).value = .function text) :
    text = String.ofList (name cs).value ∧ (name cs).rest = '(' :: (nameOrFunction cs).rest := by
  rcases nameOrFunction_cases cs with ⟨-, heq⟩ | ⟨rest, hrest, heq | ⟨-, s, hs, heq⟩⟩
  · rw [heq] at h
    cases h
  · rw [heq] at h ⊢
    exact ⟨(Token.function.inj h).symm, hrest⟩
  · rw [heq] at h
    rcases kind_address hs with hvalue | ⟨text, hvalue⟩ <;>
      (rw [Scan.behind, hvalue] at h; cases h)

/-- A text whose token is that of an address has an address in it. -/
theorem name_of_address {rest : List Char} {s : Scan Token} (hs : address rest = some s)
    (h : (nameOrFunction cs).value = s.value) : ∃ rest' s', (name cs).rest = '(' :: rest' ∧
      sameAscii (String.ofList (name cs).value) "url" = true ∧ address rest' = some s' ∧
      nameOrFunction cs = s'.behind ((name cs).source ++ ['(']) := by
  rcases nameOrFunction_cases cs with
    ⟨-, heq⟩ | ⟨rest', hrest, heq | ⟨hurl, s', hs', heq⟩⟩
  · rw [heq] at h
    rcases kind_address hs with hvalue | ⟨text, hvalue⟩ <;> (rw [hvalue] at h; cases h)
  · rw [heq] at h
    rcases kind_address hs with hvalue | ⟨text, hvalue⟩ <;> (rw [hvalue] at h; cases h)
  · exact ⟨rest', s', hrest, hurl, hs', heq⟩

end CssPruning.Token

namespace CssPruning

open Token Text

/-! ## Lexemes of no certain place -/

/-- What was read, as a lexeme. -/
def Scan.lexeme (s : Scan Token) : Lexeme := ⟨s.value, s.source, 0⟩

/-- A text is one lexeme and then a text again. -/
@[elab_as_elim] theorem lexemeInduction {motive : List Char → Prop} (nil : motive [])
    (cons : ∀ c cs, motive (next c cs).rest → motive (c :: cs)) (cs : List Char) : motive cs := by
  induction h : cs.length using Nat.strong_induction_on generalizing cs with
  | _ n ih =>
  cases cs with
  | nil => exact nil
  | cons c cs => exact cons c cs (ih _ (h ▸ Nat.lt_succ_of_le (length_rest_next_le c cs)) _ rfl)

theorem flatMap_source_bareTokens (cs : List Char) :
    (bareTokens cs).flatMap Lexeme.source = cs := by
  rw [bareTokens, List.flatMap_map]
  exact flatMap_source_tokenize cs

theorem standsBefore_next (c : Char) (cs : List Char) :
    (next c cs).lexeme.StandsBefore (next c cs).rest := by
  rw [Lexeme.StandsBefore, Scan.lexeme, next_splits c cs, bareTokens_cons]
  rfl

/-! ## Lexemes apart from blanks -/

/-- The lexemes of the text that are no blanks, places apart. -/
def solid (cs : List Char) : List Lexeme := (bareTokens cs).filter fun l => l.token != .blank

theorem solid_nil : solid [] = [] := by
  rw [solid, bareTokens_nil]
  rfl

theorem solid_cons {c : Char} (hc : isSpace c = false) (cs : List Char) :
    solid (c :: cs) = (next c cs).lexeme :: solid (next c cs).rest := by
  rw [solid, bareTokens_cons,
    List.filter_cons_of_pos (by simpa using value_next_ne_blank hc cs)]
  rfl

theorem solid_source_append {l : Lexeme} {ds : List Char} (hblank : l.token ≠ .blank)
    (h : l.StandsBefore ds) : solid (l.source ++ ds) = l.bare :: solid ds := by
  rw [solid, Lexeme.bareTokens_append_iff.2 ⟨h, rfl⟩,
    List.filter_cons_of_pos (by simpa [Lexeme.token_bare] using hblank)]
  rfl

theorem solid_dropWhile_isSpace (cs : List Char) : solid (cs.dropWhile isSpace) = solid cs := by
  cases cs with
  | nil => rfl
  | cons c cs =>
    rw [List.dropWhile_cons]
    split
    · rename_i hc
      have hnext : next c cs = ((run isSpace cs).map fun _ => .blank).behind [c] := by
        rw [next, if_pos hc]
      rw [solid, solid, bareTokens_cons, hnext,
        List.filter_cons_of_neg (by simp [Scan.behind, Scan.map])]
      rfl
    · rfl

/-- A space in front is no lexeme that counts. -/
theorem solid_cons_space {c : Char} (hc : isSpace c = true) (cs : List Char) :
    solid (c :: cs) = solid cs := by
  rw [← solid_dropWhile_isSpace (c :: cs), List.dropWhile_cons_of_pos hc, solid_dropWhile_isSpace]

theorem solid_squeeze (b : Bool) (cs : List Char) :
    solid (squeeze b cs) = solid (squeeze true cs) := by
  cases cs with
  | nil => rfl
  | cons c cs =>
    cases hc : isBlank c with
    | false => rw [squeeze_cons hc, squeeze_cons hc]
    | true =>
      cases b with
      | true => rfl
      | false => rw [squeeze_false_cons hc, squeeze_true_cons hc, solid_cons_space rfl]

/-- One blank is a token of its own, and no squeezed text has it. -/
theorem tab_not_mem_squeeze (b : Bool) (cs : List Char) :
    .delim '\x0b' ∉ (solid (squeeze b cs)).map Lexeme.token := by
  intro h
  obtain ⟨l, hl, htoken⟩ := List.mem_map.1 h
  obtain ⟨m, hm, rfl⟩ := List.mem_map.1 (List.mem_filter.1 hl).1
  have hsource : m.source = ['\x0b'] := source_eq_of_mem_tokenizeFrom hm htoken
  have hmem : '\x0b' ∈ squeeze b cs := by
    rw [← flatMap_source_tokenize (squeeze b cs)]
    exact List.mem_flatMap.2 ⟨m, hm, by rw [hsource]; exact List.mem_singleton_self _⟩
  exact absurd (eq_space_of_mem_squeeze hmem rfl) (by decide)

theorem solid_tab (cs : List Char) :
    solid ('\x0b' :: cs) = ⟨.delim '\x0b', ['\x0b'], 0⟩ :: solid cs := by
  have hnext : next '\x0b' cs = ⟨.delim '\x0b', ['\x0b'], cs⟩ :=
    mark_of_isLone (c := '\x0b') rfl cs
  rw [solid_cons rfl, hnext]
  rfl

/-- The tokens of the text that are no blanks. -/
def solidTokens (cs : List Char) : List Token := (solid cs).map Lexeme.token

theorem solidTokens_nil : solidTokens [] = [] := by
  rw [solidTokens, solid_nil, List.map_nil]

theorem solidTokens_cons {c : Char} (hc : isSpace c = false) (cs : List Char) :
    solidTokens (c :: cs) = (next c cs).value :: solidTokens (next c cs).rest := by
  rw [solidTokens, solid_cons hc]
  rfl

/-- A squeezed text with a token has one in front. -/
theorem exists_cons_of_solidTokens {cs : List Char} (h : solidTokens (squeeze true cs) ≠ []) :
    ∃ d xs, squeeze true cs = d :: xs ∧ isBlank d = false := by
  cases hcs : squeeze true cs with
  | nil => exact absurd (by rw [hcs, solidTokens_nil]) h
  | cons d xs =>
    have hd := any_head?_squeeze_true cs
    rw [hcs] at hd
    exact ⟨d, xs, rfl, hd⟩

theorem solidTokens_cons_space {c : Char} (hc : isSpace c = true) (cs : List Char) :
    solidTokens (c :: cs) = solidTokens cs := by
  rw [solidTokens, solid_cons_space hc]
  rfl

theorem solidTokens_squeeze_ne_tab (ds cs : List Char) :
    solidTokens (squeeze true ds) ≠ solidTokens ('\x0b' :: cs) := by
  intro heq
  apply tab_not_mem_squeeze true ds
  change _ ∈ solidTokens (squeeze true ds)
  rw [heq, solidTokens, solid_tab]
  exact List.mem_cons_self

end CssPruning
