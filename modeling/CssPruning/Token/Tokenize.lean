import CssPruning.Text.Ascii
import CssPruning.Token.Literal

/-!
# Reading a text as lexemes

`Token.next` reads one token at the head of a text that is not empty, and
`tokenize` reads them all.  Every text is readable: what fits nothing else is a
delimiter.  The lexemes' texts, put together, are the text
(`flatMap_source_tokenize`).
-/

set_option autoImplicit false

namespace CssPruning

namespace Token

/-- A name, or a function if a parenthesis follows it at once.  After `url(` an
address without quotes is read whole. -/
def nameOrFunction (cs : List Char) : Scan Token :=
  let n := name cs
  let word := String.ofList n.value
  match n.rest with
  | '(' :: rest =>
    match if Text.sameAscii word "url" then address rest else none with
    | some s => s.behind (n.source ++ ['('])
    | none => ⟨.function word, n.source ++ ['('], rest⟩
  | _ => n.map fun _ => .ident word

/-- A token of one character. -/
def single (c : Char) : Token :=
  match c with
  | ':' => .colon
  | ';' => .semicolon
  | ',' => .comma
  | '(' => .opening .round
  | '[' => .opening .square
  | '\x7b' => .opening .curly
  | ')' => .closing .round
  | ']' => .closing .square
  | '\x7d' => .closing .curly
  | c => .delim c

/-- A token that starts neither with a blank nor as a number or a name does. -/
def mark (c : Char) (cs : List Char) : Scan Token :=
  if c == '"' || c == '\'' then
    ((stringBody c cs).map fun
      | some text => .string (String.ofList text)
      | none => .badString).behind [c]
  else if c == '#' && (startsName cs || cs.head?.any fun d => d.isDigit || d == '-') then
    ((name cs).map fun n => .hash (String.ofList n)).behind [c]
  else if c == '@' && startsName cs then
    ((name cs).map fun n => .atKeyword (String.ofList n)).behind [c]
  else
    match c, cs with
    | '/', '*' :: rest =>
      ((commentBody rest).map fun text => .comment (String.ofList text)).behind ['/', '*']
    | '<', '!' :: '-' :: '-' :: rest => ⟨.hidingMark, ['<', '!', '-', '-'], rest⟩
    | c, '=' :: rest =>
      if c == '~' || c == '|' || c == '^' || c == '$' || c == '*' then
        ⟨.comparison, [c, '='], rest⟩
      else ⟨single c, [c], '=' :: rest⟩
    | c, cs => ⟨single c, [c], cs⟩

/-- The token at the head of a text. -/
def next (c : Char) (cs : List Char) : Scan Token :=
  if isSpace c then ((run isSpace cs).map fun _ => .blank).behind [c]
  else if startsNumber (c :: cs) then numeral (c :: cs)
  else if ['-', '-', '>'].isPrefixOf (c :: cs) then
    ⟨.hidingMark, ['-', '-', '>'], cs.drop 2⟩
  else if startsName (c :: cs) then nameOrFunction (c :: cs)
  else mark c cs

theorem nameOrFunction_splits (cs : List Char) : (nameOrFunction cs).Splits cs := by
  have h := name_splits cs
  fun_cases nameOrFunction cs with
  | case1 n word rest hr s hs =>
    split at hs
    · have := (address_splits hs).behind (n.source ++ ['('])
      simp only [Scan.Splits, List.append_assoc] at h this ⊢
      rw [this, ← h, hr]
      rfl
    · cases hs
  | case2 n word rest hr hs =>
    simp only [Scan.Splits, List.append_assoc] at h ⊢
    rw [← h, hr]
    rfl
  | case3 => exact h

theorem mark_splits (c : Char) (cs : List Char) : (mark c cs).Splits (c :: cs) := by
  fun_cases mark c cs with
  | case1 => exact ((Scan.splits_map _ _ _).2 (stringBody_splits _ _)).behind [c]
  | case2 => exact ((Scan.splits_map _ _ _).2 (name_splits _)).behind [c]
  | case3 => exact ((Scan.splits_map _ _ _).2 (name_splits _)).behind [c]
  | case4 => exact ((Scan.splits_map _ _ _).2 (commentBody_splits _)).behind ['/', '*']
  | case5 => rfl
  | case6 => rfl
  | case7 => rfl
  | case8 => rfl

theorem next_splits (c : Char) (cs : List Char) : (next c cs).Splits (c :: cs) := by
  fun_cases next c cs with
  | case1 => exact ((Scan.splits_map _ _ _).2 (run_splits _ _)).behind [c]
  | case2 => exact numeral_splits _
  | case3 _ _ h =>
    obtain ⟨r, hr⟩ := List.isPrefixOf_iff_prefix.1 h
    cases hr
    rfl
  | case4 => exact nameOrFunction_splits _
  | case5 => exact mark_splits c cs

/-! ## Progress -/

theorem source_name_ne_nil {cs : List Char} (h : startsName cs = true) : (name cs).source ≠ [] := by
  cases cs with
  | nil => simp [startsName] at h
  | cons c cs =>
    unfold name
    split
    · rename_i hc
      have : (c == '-') = false := by simp_all
      split
      · simp_all [startsName]
      · simp [Scan.behind]
    · rename_i hc
      have : isNameChar c = true := by
        simp only [startsName] at h
        split at h
        · simp_all [isNameChar]
        · simp_all [isNameChar]
      simp [this, Scan.behind]

theorem source_decimal_ne_nil {cs : List Char} (h : startsNumber cs = true) :
    (decimal cs).source ≠ [] := by
  simp only [decimal, Scan.andThen, Scan.behind, ne_eq, List.append_eq_nil_iff, not_and]
  intro _ hd hf
  simp only [startsNumber] at h
  simp only [run] at hd hf
  split at h
  · rename_i d r hs
    rw [hs] at hd hf
    have : ('.'.isDigit) = false := rfl
    simp [this, fraction, h, Scan.behind] at hf
  · rename_i hs
    rw [hs] at hd
    simp [h] at hd
  · cases h

theorem source_numeral_ne_nil {cs : List Char} (h : startsNumber cs = true) :
    (numeral cs).source ≠ [] := by
  have := source_decimal_ne_nil h
  fun_cases numeral cs with
  | case1 => simp
  | case2 => exact fun h => this (List.append_eq_nil_iff.1 h).1
  | case3 => exact this

theorem source_nameOrFunction_ne_nil {cs : List Char} (h : startsName cs = true) :
    (nameOrFunction cs).source ≠ [] := by
  have := source_name_ne_nil h
  fun_cases nameOrFunction cs with
  | case1 => simp [Scan.behind]
  | case2 => simp
  | case3 => exact this

theorem source_next_ne_nil (c : Char) (cs : List Char) : (next c cs).source ≠ [] := by
  fun_cases next c cs with
  | case1 => simp [Scan.behind]
  | case2 _ h => exact source_numeral_ne_nil h
  | case3 => simp
  | case4 _ _ _ h => exact source_nameOrFunction_ne_nil h
  | case5 => fun_cases mark c cs <;> simp [Scan.behind]

theorem length_rest_next_le (c : Char) (cs : List Char) : (next c cs).rest.length ≤ cs.length := by
  have h := congrArg List.length (next_splits c cs)
  have := List.length_pos_iff.2 (source_next_ne_nil c cs)
  simp only [List.length_append, List.length_cons] at h
  omega

end Token

/-! ## All lexemes -/

/-- The lexemes of a text that starts at a given place. -/
def tokenizeFrom (start : Nat) : List Char → List Lexeme
  | [] => []
  | c :: cs =>
    let s := Token.next c cs
    have : s.rest.length ≤ cs.length := Token.length_rest_next_le c cs
    ⟨s.value, s.source, start⟩ :: tokenizeFrom (start + s.source.length) s.rest
termination_by cs => cs.length
decreasing_by grind

/-- The lexemes of a text. -/
def tokenize (cs : List Char) : List Lexeme := tokenizeFrom 0 cs

/-- No character is lost, made up or moved. -/
theorem flatMap_source_tokenizeFrom (start : Nat) (cs : List Char) :
    (tokenizeFrom start cs).flatMap Lexeme.source = cs := by
  fun_induction tokenizeFrom start cs with
  | case1 => rfl
  | case2 start c cs s _ ih =>
    rw [List.flatMap_cons, ih]
    exact Token.next_splits c cs

theorem flatMap_source_tokenize (cs : List Char) :
    (tokenize cs).flatMap Lexeme.source = cs := flatMap_source_tokenizeFrom 0 cs

/-- Every lexeme takes some text. -/
theorem source_ne_nil_of_mem_tokenizeFrom {start : Nat} {cs : List Char} {l : Lexeme}
    (h : l ∈ tokenizeFrom start cs) : l.source ≠ [] := by
  fun_induction tokenizeFrom start cs with
  | case1 => cases h
  | case2 start c cs s _ ih =>
    rcases List.mem_cons.1 h with rfl | h
    · exact Token.source_next_ne_nil c cs
    · exact ih h

end CssPruning
