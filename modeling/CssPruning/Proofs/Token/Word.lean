import CssPruning.Proofs.Token.Piece
import CssPruning.Text.Blank
import CssPruning.Value.Writer

/-!
# Words, numbers and strings as pieces

A word is a letter with letters, digits and hyphens behind it, all of them ASCII,
and may have two hyphens in front.  Words and numbers are pieces in front of every
break, a character that goes on with neither (`Piece.word`, `Piece.number`).  A
string in double quotes is a piece whatever follows, and so are the marks that
stand on their own (`Piece.string`, `Piece.mark`).
-/

set_option autoImplicit false

namespace CssPruning

namespace Token

/-! ## Breaks -/

/-- The characters that may stand behind a word or a number. -/
def breaks : List Char := [' ', ',', ':', '!', ')', ';', '\x7b', '\x7d']

/-- The text is empty, or starts with a break. -/
def Breaks (cs : List Char) : Prop := ∀ c ∈ cs.head?, c ∈ breaks

/-- The text does not start with a blank. -/
def Solid (cs : List Char) : Prop := cs.head?.any isSpace = false

theorem breaks_cons {c : Char} (hc : c ∈ breaks) (cs : List Char) : Breaks (c :: cs) := by
  intro d hd
  rwa [← Option.mem_some_iff.1 hd]

theorem Stopped.breaks {cs : List Char} (h : Stopped cs) : Breaks cs := by
  intro c hc
  rw [Stopped, Option.mem_def.1 hc] at h
  rcases eq_of_isStop h with rfl | rfl | rfl <;> decide

/-- A test that no break passes fails at the head. -/
theorem Breaks.any_head {p : Char → Bool} {cs : List Char} (h : Breaks cs)
    (hp : (Token.breaks.all fun c => !p c) = true) : cs.head?.any p = false := by
  cases cs with
  | nil => rfl
  | cons c cs => simpa using List.all_eq_true.1 hp c (h c rfl)

theorem Breaks.head?_ne {cs : List Char} {c : Char} (h : Breaks cs) (hc : c ∉ Token.breaks) :
    cs.head? ≠ some c := fun hhead => hc (h c hhead)

/-! ## Characters of words -/

/-- A letter, a digit or a hyphen. -/
def isWordChar (c : Char) : Bool := c.isAlphanum || c == '-'

theorem toNat_of_isAlpha {c : Char} (h : c.isAlpha = true) :
    (65 ≤ c.toNat ∧ c.toNat ≤ 90) ∨ (97 ≤ c.toNat ∧ c.toNat ≤ 122) := by
  change (decide ('A'.val ≤ c.val ∧ c.val ≤ 'Z'.val) ||
    (decide ('a'.val ≤ c.val) && decide (c.val ≤ 'z'.val))) = true at h
  simp only [Bool.or_eq_true, Bool.and_eq_true, decide_eq_true_eq, UInt32.le_iff_toNat_le] at h
  exact h

theorem toNat_of_isDigit {c : Char} (h : c.isDigit = true) : 48 ≤ c.toNat ∧ c.toNat ≤ 57 := by
  simp only [Char.isDigit, Bool.and_eq_true, decide_eq_true_eq, UInt32.le_iff_toNat_le,
    ge_iff_le] at h
  exact h

theorem isDigit_of_isAlpha {c : Char} (h : c.isAlpha = true) : c.isDigit = false := by
  rw [← Bool.not_eq_true]
  intro hdigit
  have := toNat_of_isAlpha h
  have := toNat_of_isDigit hdigit
  omega

theorem isWordChar_of_isAlpha {c : Char} (h : c.isAlpha = true) : isWordChar c = true := by
  simp [isWordChar, Char.isAlphanum, h]

theorem isWordChar_of_isDigit {c : Char} (h : c.isDigit = true) : isWordChar c = true := by
  simp [isWordChar, Char.isAlphanum, h]

section

variable {c : Char} (h : isWordChar c = true)

include h

theorem isNameChar_of_isWordChar : isNameChar c = true := by
  simp only [isWordChar, Char.isAlphanum, Bool.or_eq_true] at h
  simp only [isNameChar, isNameStart, Bool.or_eq_true]
  rcases h with (h | h) | h
  · exact .inl (.inl (.inl (.inl (.inl h))))
  · exact .inl (.inr h)
  · exact .inr h

/-- A character of words passes no test that fails for all of them. -/
theorem ne_of_isWordChar {d : Char} (hd : isWordChar d = false) : c ≠ d := by
  rintro rfl
  rw [h] at hd
  cases hd

theorem isSpace_of_isWordChar : isSpace c = false := by
  simp [isSpace, ne_of_isWordChar h (d := ' ') rfl, ne_of_isWordChar h (d := '\t') rfl,
    ne_of_isWordChar h (d := '\n') rfl, ne_of_isWordChar h (d := '\r') rfl,
    ne_of_isWordChar h (d := '\x0c') rfl]

theorem isBlank_of_isWordChar : Text.isBlank c = false := by
  have hcode : c.toNat = 45 ∨ (48 ≤ c.toNat ∧ c.toNat ≤ 122) := by
    simp only [isWordChar, Char.isAlphanum, Bool.or_eq_true, beq_iff_eq] at h
    rcases h with (h | h) | rfl
    · have := toNat_of_isAlpha h
      omega
    · have := toNat_of_isDigit h
      omega
    · exact .inl rfl
  simp only [Text.isBlank, Bool.or_eq_false_iff, Bool.and_eq_false_iff, decide_eq_false_iff_not,
    beq_eq_false_iff_ne]
  omega

end

/-! ## Words -/

/-- A letter, and then letters, digits and hyphens. -/
def isSimpleName : List Char → Bool
  | [] => false
  | c :: cs => c.isAlpha && cs.all isWordChar

/-- A name, or two hyphens and then a name. -/
def isWord : List Char → Bool
  | '-' :: '-' :: cs => isSimpleName cs
  | cs => isSimpleName cs

theorem isWord_of_isSimpleName {cs : List Char} (h : isSimpleName cs = true) :
    isWord cs = true := by
  fun_cases isWord cs with
  | case1 => cases h
  | case2 => exact h

theorem exists_isAlpha_of_isSimpleName {cs : List Char} (h : isSimpleName cs = true) :
    ∃ c cs', cs = c :: cs' ∧ c.isAlpha = true ∧ ∀ d ∈ cs', isWordChar d = true := by
  cases cs with
  | nil => cases h
  | cons c cs =>
    rw [isSimpleName, Bool.and_eq_true, List.all_eq_true] at h
    exact ⟨c, cs, rfl, h⟩

/-- All characters of a word are letters, digits and hyphens. -/
theorem isWordChar_of_mem_word {cs : List Char} (h : isWord cs = true) :
    ∀ c ∈ cs, isWordChar c = true := by
  revert h
  fun_cases isWord cs with
  | case1 cs =>
    intro h
    obtain ⟨c, cs, rfl, hc, hcs⟩ := exists_isAlpha_of_isSimpleName h
    simpa [isWordChar_of_isAlpha hc, show isWordChar '-' = true from rfl] using hcs
  | case2 =>
    intro h
    obtain ⟨c, cs, rfl, hc, hcs⟩ := exists_isAlpha_of_isSimpleName h
    exact List.forall_mem_cons.2 ⟨isWordChar_of_isAlpha hc, hcs⟩

theorem isWord_ne_nil {cs : List Char} (h : isWord cs = true) : cs ≠ [] := by
  rintro rfl
  cases h

/-- A name goes on to where none of its characters stands. -/
theorem name_append {cs ds : List Char} (hcs : ∀ c ∈ cs, isWordChar c = true)
    (hds : ds.head?.any isNameChar = false) (hescape : ds.head? ≠ some '\\') :
    name (cs ++ ds) = ⟨cs, cs, ds⟩ := by
  induction cs with
  | nil => exact name_of_head hds hescape
  | cons c cs ih =>
    rw [List.forall_mem_cons] at hcs
    have hback : ¬ (c == '\\') = true := by simp [ne_of_isWordChar hcs.1 (d := '\\') rfl]
    have hnul : withoutNul c = c := if_neg (by simp [ne_of_isWordChar hcs.1 (d := '\x00') rfl])
    rw [List.cons_append, name, if_neg hback, if_pos (isNameChar_of_isWordChar hcs.1), ih hcs.2, hnul]
    rfl

/-- What starts with a word starts with a name, and neither with a number nor with
the end of a hiding mark. -/
theorem starts_of_isWord {cs : List Char} (h : isWord cs = true) (ds : List Char) :
    startsNumber (cs ++ ds) = false ∧ ['-', '-', '>'].isPrefixOf (cs ++ ds) = false ∧
      startsName (cs ++ ds) = true := by
  revert h
  fun_cases isWord cs with
  | case1 name =>
    intro h
    obtain ⟨c, name, rfl, hc, -⟩ := exists_isAlpha_of_isSimpleName h
    have harrow : '>' ≠ c := fun heq => by rw [← heq] at hc; cases hc
    exact ⟨rfl, by simp [List.isPrefixOf_cons_cons, harrow], rfl⟩
  | case2 =>
    intro h
    obtain ⟨c, name, rfl, hc, -⟩ := exists_isAlpha_of_isSimpleName h
    have hne : ∀ {d : Char}, d.isAlpha = false → c ≠ d := by
      rintro d hd rfl
      rw [hc] at hd
      cases hd
    refine ⟨?_, ?_, ?_⟩
    · rw [startsNumber_eq_any]
      simp [sign, hne (d := '+') rfl, hne (d := '-') rfl, hne (d := '.') rfl, isDigit_of_isAlpha hc]
    · simp [List.isPrefixOf_cons_cons, (hne (d := '-') rfl).symm]
    · simp [startsName, hne (d := '-') rfl, hne (d := '\\') rfl, isNameStart, hc]

/-- What starts with a word is read as a name or a function. -/
theorem next_of_isWord {c : Char} {cs : List Char} (h : isWord (c :: cs) = true) (ds : List Char) :
    next c (cs ++ ds) = nameOrFunction (c :: (cs ++ ds)) := by
  have hspace : isSpace c = false :=
    isSpace_of_isWordChar (isWordChar_of_mem_word h c List.mem_cons_self)
  have hstarts := starts_of_isWord h ds
  rw [List.cons_append] at hstarts
  simp only [next, hspace, hstarts, Bool.false_eq_true, if_false, if_true]

/-- A name with an opening parenthesis behind it is read as a function, unless it is
`url`. -/
theorem next_function {c : Char} {cs : List Char} (h : isSimpleName (c :: cs) = true)
    (hurl : Text.sameAscii (String.ofList (c :: cs)) "url" = false) (ds : List Char) :
    next c (cs ++ '(' :: ds) = ⟨.function (String.ofList (c :: cs)), c :: cs ++ ['('], ds⟩ := by
  have hword := isWord_of_isSimpleName h
  have hname : name (c :: cs ++ '(' :: ds) = ⟨c :: cs, c :: cs, '(' :: ds⟩ :=
    name_append (isWordChar_of_mem_word hword) rfl (by simp)
  rw [next_of_isWord hword, ← List.cons_append, nameOrFunction]
  simp only [hname, hurl, Bool.false_eq_true, if_false]

/-! ## Numbers -/

/-- Digits, and then a break, are read as a number. -/
theorem next_digits {c : Char} {cs ds : List Char} (h : ∀ d ∈ c :: cs, d.isDigit = true)
    (hds : Breaks ds) : next c (cs ++ ds) = ⟨.number, c :: cs, ds⟩ := by
  have hc : c.isDigit = true := h c List.mem_cons_self
  have hne : ∀ {e : Char}, e.isDigit = false → c ≠ e := by
    rintro e he rfl
    rw [hc] at he
    cases he
  have hsign : sign (c :: (cs ++ ds)) = ⟨(), [], c :: (cs ++ ds)⟩ := by
    simp [sign, hne (e := '+') rfl, hne (e := '-') rfl]
  have hspace : isSpace c = false := isSpace_of_isWordChar (isWordChar_of_isDigit hc)
  have hnumber : startsNumber (c :: (cs ++ ds)) = true := by
    rw [startsNumber_eq_any, hsign]
    simp [hc]
  have hrun : run Char.isDigit (c :: (cs ++ ds)) = ⟨(), c :: cs, ds⟩ := by
    have hend : ds.head?.any Char.isDigit = false := hds.any_head rfl
    obtain ⟨htake, hdrop⟩ := takeWhile_append_of_head h hend
    rw [run, ← List.cons_append, htake, hdrop]
  have hfraction : fraction ds = ⟨(), [], ds⟩ := by
    apply fraction_of_not
    rintro d ds' rfl
    exact absurd rfl (hds.head?_ne (c := '.') (by decide))
  have hexponent : exponent ds = ⟨(), [], ds⟩ := by
    cases ds with
    | nil => rfl
    | cons d ds =>
      have hd : (d == 'e' || d == 'E') = false :=
        hds.any_head (p := fun d => d == 'e' || d == 'E') rfl
      rw [exponent, if_neg (by simp [hd])]
  have hdecimal : decimal (c :: (cs ++ ds)) = ⟨(), c :: cs, ds⟩ := by
    simp only [decimal, Scan.andThen, Scan.behind, hsign, hrun, hfraction, hexponent,
      List.nil_append, List.append_nil]
  have hname : startsName ds = false := by
    cases ds with
    | nil => rfl
    | cons d ds =>
      have hd := hds d rfl
      simp only [breaks, List.mem_cons, List.not_mem_nil, or_false] at hd
      rcases hd with rfl | rfl | rfl | rfl | rfl | rfl | rfl | rfl <;> rfl
  have hpercent : (decimal (c :: (cs ++ ds))).rest.head? ≠ some '%' := by
    rw [hdecimal]
    exact hds.head?_ne (by decide)
  simp only [next, hspace, hnumber, Bool.false_eq_true, if_false, if_true]
  rw [numeral_of_ne hpercent, hdecimal, if_neg (by simp [hname])]
  rfl

/-! ## Strings -/

/-- A character that a line of a string can have in it: neither the end of the line
nor NUL. -/
def isStringChar (c : Char) : Bool := !isLineEnd c && c != '\x00'

/-- A string is read back from its text with a backslash before each quote and each
backslash. -/
theorem stringBody_escaped {cs : List Char} (h : ∀ c ∈ cs, isStringChar c = true)
    (ds : List Char) :
    stringBody '"' (cs.flatMap Component.escaped ++ '"' :: ds) =
      ⟨some cs, cs.flatMap Component.escaped ++ ['"'], ds⟩ := by
  induction cs with
  | nil =>
    rw [List.flatMap_nil, List.nil_append, stringBody]
    rfl
  | cons c cs ih =>
    rw [List.forall_mem_cons, isStringChar, Bool.and_eq_true, Bool.not_eq_true', bne_iff_ne] at h
    obtain ⟨⟨hline, hnul⟩, hcs⟩ := h
    have hwithout : withoutNul c = c := if_neg (by simpa using hnul)
    rw [List.flatMap_cons, Component.escaped]
    by_cases hc : c == '"' || c == '\\'
    · -- the character behind the backslash stands for itself
      have hend : ¬ atLineEnd (c :: (cs.flatMap Component.escaped ++ '"' :: ds)) = true := by
        simpa [atLineEnd] using hline
      have hescape : escape (c :: (cs.flatMap Component.escaped ++ '"' :: ds)) =
          ⟨c, [c], cs.flatMap Component.escaped ++ '"' :: ds⟩ := by
        have hhex : isHexDigit c = false := by
          rw [Bool.or_eq_true, beq_iff_eq, beq_iff_eq] at hc
          rcases hc with rfl | rfl <;> rfl
        rw [escape, if_neg (by simp [hhex]), hwithout]
      rw [if_pos hc]
      simp only [List.cons_append, List.nil_append]
      rw [stringBody_escape (by decide) (List.cons_ne_nil _ _) hend, hescape, ih hcs]
      rfl
    · have hc' := hc
      rw [Bool.or_eq_true, not_or] at hc'
      rw [if_neg hc]
      simp only [List.cons_append, List.nil_append]
      rw [stringBody, if_neg hc'.1, if_neg (by simp [hline]), if_neg hc'.2, ih hcs, hwithout]
      rfl

end Token

open Token TokenTree

namespace Piece

/-! ## Pieces of one lexeme -/

/-- A text that is one lexeme in front of some texts. -/
theorem leaf {follows : List Char → Prop} {c : Char} {cs : List Char} {token : Token}
    (hopens : token.opens = none) (hcloses : token ≠ .closing .curly)
    (h : ∀ ds, follows ds → next c (cs ++ ds) = ⟨token, c :: cs, ds⟩) :
    Piece follows (c :: cs) [.leaf ⟨token, c :: cs, 0⟩] := by
  constructor
  case whole => exact ⟨hopens, hcloses, trivial⟩
  case tokens =>
    intro start ds hds
    rw [List.cons_append, tokenizeFrom_cons, h ds hds]
    rfl

theorem word {cs : List Char} (h : isWord cs = true) :
    Piece Breaks cs [.leaf ⟨.ident (String.ofList cs), cs, 0⟩] := by
  cases cs with
  | nil => cases h
  | cons c cs =>
    refine leaf rfl Token.noConfusion ?_
    intro ds hds
    have hname : name (c :: (cs ++ ds)) = ⟨c :: cs, c :: cs, ds⟩ :=
      name_append (isWordChar_of_mem_word h) (hds.any_head rfl) (hds.head?_ne (by decide))
    have hround : (name (c :: (cs ++ ds))).rest.head? ≠ some '(' := by
      rw [hname]
      exact hds.head?_ne (by decide)
    rw [next_of_isWord h, nameOrFunction_of_ne hround, hname]
    rfl

theorem number {cs : List Char} (hne : cs ≠ []) (h : ∀ c ∈ cs, c.isDigit = true) :
    Piece Breaks cs [.leaf ⟨.number, cs, 0⟩] := by
  cases cs with
  | nil => exact absurd rfl hne
  | cons c cs => exact leaf rfl Token.noConfusion fun ds hds => next_digits h hds

theorem string {cs : List Char} (h : ∀ c ∈ cs, isStringChar c = true) :
    Piece Anything ('"' :: (cs.flatMap Component.escaped ++ ['"']))
      [.leaf ⟨.string (String.ofList cs), '"' :: (cs.flatMap Component.escaped ++ ['"']), 0⟩] := by
  refine leaf rfl Token.noConfusion ?_
  intro ds _
  have hmark : next '"' (cs.flatMap Component.escaped ++ '"' :: ds) =
      Token.mark '"' (cs.flatMap Component.escaped ++ '"' :: ds) := rfl
  rw [List.append_assoc, List.singleton_append, hmark]
  unfold Token.mark
  rw [if_pos (by decide), stringBody_escaped h]
  rfl

theorem space : Piece Solid [' '] [.leaf ⟨.blank, [' '], 0⟩] := by
  refine leaf rfl Token.noConfusion ?_
  intro ds hds
  have hrun : run isSpace ds = ⟨(), [], ds⟩ := by
    obtain ⟨htake, hdrop⟩ := takeWhile_append_of_head (List.forall_mem_nil _) hds
    rw [List.nil_append] at htake hdrop
    rw [run, htake, hdrop]
  have hnext : next ' ' ds = ((run isSpace ds).map fun _ => Token.blank).behind [' '] := rfl
  rw [List.nil_append, hnext, hrun]
  rfl

/-- A comma, a colon or an exclamation mark. -/
theorem mark {c : Char} (hc : c ∈ [',', ':', '!']) :
    Piece Anything [c] [.leaf ⟨single c, [c], 0⟩] := by
  simp only [List.mem_cons, List.not_mem_nil, or_false] at hc
  rcases hc with rfl | rfl | rfl
  · exact leaf rfl Token.noConfusion fun ds _ => mark_of_isLone (c := ',') rfl ds
  · exact leaf rfl Token.noConfusion fun ds _ => mark_of_isLone (c := ':') rfl ds
  · exact leaf rfl Token.noConfusion fun ds _ => mark_of_isLone (c := '!') rfl ds

theorem atKeyword {cs : List Char} (h : isSimpleName cs = true) :
    Piece Breaks ('@' :: cs) [.leaf ⟨.atKeyword (String.ofList cs), '@' :: cs, 0⟩] := by
  refine leaf rfl Token.noConfusion ?_
  intro ds hds
  have hname : name (cs ++ ds) = ⟨cs, cs, ds⟩ :=
    name_append (isWordChar_of_mem_word (isWord_of_isSimpleName h)) (hds.any_head rfl)
      (hds.head?_ne (by decide))
  have hstarts := (starts_of_isWord (isWord_of_isSimpleName h) ds).2.2
  have hmark : next '@' (cs ++ ds) = Token.mark '@' (cs ++ ds) := rfl
  rw [hmark]
  unfold Token.mark
  rw [if_neg (by decide), if_neg (by simp), if_pos (by simp [hstarts]), hname]
  rfl

/-- A function with a text in its parentheses. -/
theorem function {cs cs' : List Char} {ts : List TokenTree} (h : isSimpleName cs = true)
    (hurl : Text.sameAscii (String.ofList cs) "url" = false) (hinner : Piece Breaks cs' ts)
    (hts : AllWhole .round ts) :
    Piece Anything (cs ++ '(' :: cs' ++ [')'])
      [block ⟨.function (String.ofList cs), cs ++ ['('], 0⟩ (allMoved (cs.length + 1) ts)
        (some ⟨.closing .round, [')'], cs.length + 1 + cs'.length⟩)] := by
  cases cs with
  | nil => cases h
  | cons c cs =>
    constructor
    case whole =>
      exact ⟨⟨.round, _, rfl, allWhole_allMoved hts, rfl, rfl⟩, id, trivial⟩
    case tokens =>
      intro start ds _
      have hsplit : c :: cs ++ '(' :: cs' ++ [')'] ++ ds =
          c :: (cs ++ '(' :: (cs' ++ (')' :: ds))) := by simp
      have hopen : start + (c :: cs ++ ['(']).length = start + ((c :: cs).length + 1) := by simp
      have hcontents := hinner.tokens (start + ((c :: cs).length + 1)) (')' :: ds)
        (breaks_cons (by decide) ds)
      have hclosing : next ')' ds = ⟨.closing .round, [')'], ds⟩ := mark_of_isLone (c := ')') rfl ds
      rw [hsplit, tokenizeFrom_cons, next_function h hurl]
      have hend : start + ((c :: cs).length + 1) + cs'.length + 1 =
          start + (c :: cs ++ '(' :: cs' ++ [')']).length := by
        simp only [List.length_append, List.length_cons, List.length_nil]
        omega
      simp only [hopen, hcontents, tokenizeFrom_cons, hclosing, List.length_singleton, hend]
      simp [allMoved, moved, allLexemes, lexemes, Lexeme.moved, Nat.add_assoc]

end Piece

end CssPruning
