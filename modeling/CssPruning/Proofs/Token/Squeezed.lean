import CssPruning.Proofs.Text.Squeeze
import CssPruning.Proofs.Token.Boundary

/-!
# Literals of a squeezed text

Numbers, comments, strings and addresses are read in step from a text and from that
text squeezed.  There is no blank in a number, so it is read as it was; what ends the
others is no blank, so they end where they did, whatever becomes of their texts.  An
escape takes a blank behind its digits, and then what is left of the run makes no
difference.

Names are not read in step: they are the subject of another module.
-/

set_option autoImplicit false

namespace CssPruning.Token

open Text

variable {cs : List Char} {c : Char}

/-! ## Blanks among the characters of tokens -/

theorem isBlank_of_isDigit (h : c.isDigit = true) : isBlank c = false :=
  isBlank_of_isWordChar (isWordChar_of_isDigit h)

theorem isBlank_of_isHexDigit (h : isHexDigit c = true) : isBlank c = false := by
  have hcode : 48 ≤ c.toNat ∧ c.toNat ≤ 102 := by
    simp only [isHexDigit, Bool.or_eq_true, Bool.and_eq_true, decide_eq_true_eq] at h
    rcases h with (h | ⟨h, h'⟩) | ⟨h, h'⟩
    · have := toNat_of_isDigit h
      omega
    · have : 97 ≤ c.toNat ∧ c.toNat ≤ 102 := ⟨h, h'⟩
      omega
    · have : 65 ≤ c.toNat ∧ c.toNat ≤ 70 := ⟨h, h'⟩
      omega
  simp only [isBlank, Bool.or_eq_false_iff, Bool.and_eq_false_iff, decide_eq_false_iff_not,
    beq_eq_false_iff_ne]
  omega

theorem isBlank_withoutNul (c : Char) : isBlank (withoutNul c) = isBlank c := by
  rw [withoutNul]
  split
  · rename_i hc
    rw [beq_iff_eq] at hc
    rw [hc]
    rfl
  · rfl

theorem withoutNul_of_isBlank (h : isBlank c = true) : withoutNul c = c := by
  rw [withoutNul, if_neg]
  intro hc
  rw [beq_iff_eq] at hc
  rw [hc] at h
  cases h

theorem isHexDigit_of_isBlank (h : isBlank c = true) : isHexDigit c = false := by
  by_contra hc
  rw [isBlank_of_isHexDigit (by simpa using hc)] at h
  cases h

theorem isDigit_of_isBlank (h : isBlank c = true) : c.isDigit = false := by
  by_contra hc
  rw [isBlank_of_isDigit (by simpa using hc)] at h
  cases h

theorem isSpace_of_not_isBlank (h : isBlank c = false) : isSpace c = false := by
  by_contra hc
  rw [isBlank_of_isSpace (by simpa using hc)] at h
  cases h

theorem isBlank_of_isLineEnd (h : isLineEnd c = true) : isBlank c = true := by
  rw [isLineEnd, Bool.or_eq_true, Bool.or_eq_true, beq_iff_eq, beq_iff_eq, beq_iff_eq] at h
  rcases h with (rfl | rfl) | rfl <;> rfl

/-- No line ends in a squeezed text. -/
theorem isLineEnd_of_mem_squeeze {b : Bool} (h : c ∈ squeeze b cs) : isLineEnd c = false := by
  by_contra hline
  rw [Bool.not_eq_false] at hline
  rw [eq_space_of_mem_squeeze h (isBlank_of_isLineEnd hline)] at hline
  cases hline

theorem atLineEnd_squeeze (b : Bool) (cs : List Char) : ¬ atLineEnd (squeeze b cs) = true := by
  intro h
  cases hcs : squeeze b cs with
  | nil => rw [hcs] at h; cases h
  | cons d ds =>
    rw [hcs] at h
    exact Bool.eq_false_iff.1 (isLineEnd_of_mem_squeeze (hcs ▸ List.mem_cons_self)) h

/-! ## Numbers -/

/-- What the scanner reads has no blank to squeeze. -/
structure Blankless {α : Type} (f : List Char → Scan α) : Prop where
  source : ∀ cs, ∀ c ∈ (f cs).source, isBlank c = false
  squeeze : ∀ cs, f (squeeze false cs) = ⟨(f cs).value, (f cs).source, squeeze false (f cs).rest⟩

theorem Blankless.andThen {α β : Type} {f : List Char → Scan α} {g : List Char → Scan β}
    (hf : Blankless f) (hg : Blankless g) : Blankless fun cs => (f cs).andThen g := by
  constructor
  · exact fun cs => List.forall_mem_append.2 ⟨hf.source cs, hg.source _⟩
  · intro cs
    simp only [Scan.andThen, Scan.behind]
    rw [hf.squeeze, hg.squeeze]

theorem Blankless.endsBlank {α : Type} {f : List Char → Scan α} (hf : Blankless f) (b : Bool)
    (h : (f cs).source ≠ []) : endsBlank b (f cs).source = false := by
  have hsource := hf.source cs
  generalize (f cs).source = xs at h hsource
  rw [endsBlank_of_ne_nil h b false]
  clear h
  induction xs with
  | nil => rfl
  | cons x xs ih =>
    rw [List.forall_mem_cons] at hsource
    rw [endsBlank_cons, hsource.1, ih hsource.2]

theorem blankless_run {p : Char → Bool} (hp : ∀ c, isBlank c = true → p c = false) :
    Blankless (run p) := by
  constructor
  · intro cs c hc
    by_contra hblank
    have := List.all_eq_true.1 List.all_takeWhile c hc
    rw [hp c (by simpa using hblank)] at this
    cases this
  · intro cs
    rw [run, run, takeWhile_squeeze hp, dropWhile_squeeze hp]

theorem blankless_digits : Blankless (run Char.isDigit) := blankless_run fun _ => isDigit_of_isBlank

theorem isBlank_of_isNumberSign (h : isNumberSign c = true) : isBlank c = false := by
  rw [isNumberSign, Bool.or_eq_true, beq_iff_eq, beq_iff_eq] at h
  rcases h with rfl | rfl <;> rfl

theorem isNumberSign_of_isBlank (h : isBlank c = true) : isNumberSign c = false := by
  by_contra hc
  rw [isBlank_of_isNumberSign (by simpa using hc)] at h
  cases h

theorem sign_of_head (h : cs.head?.any isNumberSign = false) : sign cs = ⟨(), [], cs⟩ := by
  cases cs with
  | nil => rfl
  | cons c cs =>
    have hc : ¬ (c == '+' || c == '-') = true := Bool.eq_false_iff.1 h
    rw [sign, if_neg hc]

theorem blankless_sign : Blankless sign where
  source cs := by
    fun_cases sign cs with
    | case1 c cs hc => exact List.forall_mem_singleton.2 (isBlank_of_isNumberSign hc)
    | case2 => exact List.forall_mem_nil _
    | case3 => exact List.forall_mem_nil _
  squeeze cs := by
    fun_cases sign cs with
    | case1 c cs hc =>
      rw [squeeze_cons (isBlank_of_isNumberSign hc), sign, if_pos hc]
    | case2 c cs hc =>
      apply sign_of_head
      rw [any_head?_squeeze fun _ => isNumberSign_of_isBlank]
      exact Bool.eq_false_iff.2 hc
    | case3 => rfl

theorem blankless_fraction : Blankless fraction where
  source cs := by
    fun_cases fraction cs with
    | case1 d cs hd => exact List.forall_mem_cons.2 ⟨rfl, blankless_digits.source _⟩
    | case2 => exact List.forall_mem_nil _
    | case3 => exact List.forall_mem_nil _
  squeeze cs := by
    fun_cases fraction cs with
    | case1 d cs hd =>
      have hrun := blankless_digits.squeeze (d :: cs)
      rw [squeeze_cons (isBlank_of_isDigit hd)] at hrun
      rw [squeeze_cons rfl, squeeze_cons (isBlank_of_isDigit hd), fraction, if_pos hd, hrun]
      rfl
    | case2 d cs hd =>
      apply fraction_of_not
      intro d' ds hds
      rw [squeeze_cons rfl, List.cons.injEq] at hds
      have hhead := any_head?_squeeze (fun _ => isDigit_of_isBlank) (d :: cs)
      rw [hds.2] at hhead
      have hdigit : d'.isDigit = d.isDigit := hhead
      rw [hdigit]
      exact Bool.eq_false_iff.2 hd
    | case3 cs hne =>
      apply fraction_of_not
      intro d ds hds
      obtain ⟨cs', rfl, hcs'⟩ := eq_cons_of_squeeze rfl hds
      cases cs' with
      | nil => cases hcs'
      | cons d' cs' => exact absurd rfl (hne d' cs')

theorem startsDigit_squeeze (cs : List Char) : startsDigit (squeeze false cs) = startsDigit cs := by
  rw [startsDigit, blankless_sign.squeeze]
  exact any_head?_squeeze (fun _ => isDigit_of_isBlank) _

theorem startsExponent_squeeze (cs : List Char) :
    startsExponent (squeeze false cs) = startsExponent cs := by
  cases cs with
  | nil => rfl
  | cons e cs =>
    cases he : isBlank e with
    | false => rw [squeeze_cons he, startsExponent, startsExponent, startsDigit_squeeze]
    | true =>
      have hne : (e == 'e' || e == 'E') = false := by
        rw [Bool.or_eq_false_iff, beq_eq_false_iff_ne, beq_eq_false_iff_ne]
        constructor <;> (rintro rfl; cases he)
      rw [squeeze_false_cons he, startsExponent, startsExponent, hne]
      rfl

theorem isBlank_of_exponentMark {e : Char} (h : (e == 'e' || e == 'E') = true) :
    isBlank e = false := by
  rw [Bool.or_eq_true, beq_iff_eq, beq_iff_eq] at h
  rcases h with rfl | rfl <;> rfl

theorem blankless_exponent : Blankless exponent where
  source cs := by
    fun_cases exponent cs with
    | case1 e cs he s hs =>
      exact List.forall_mem_append.2 ⟨List.forall_mem_cons.2
        ⟨isBlank_of_exponentMark he, blankless_sign.source cs⟩, blankless_digits.source _⟩
    | case2 => exact List.forall_mem_nil _
    | case3 => exact List.forall_mem_nil _
    | case4 => exact List.forall_mem_nil _
  squeeze cs := by
    fun_cases exponent cs with
    | case1 e cs he s hs =>
      have hdigit : (sign (Text.squeeze false cs)).rest.head?.any Char.isDigit = true :=
        (startsDigit_squeeze cs).trans hs
      rw [squeeze_cons (isBlank_of_exponentMark he), exponent, if_pos he]
      dsimp only
      rw [if_pos hdigit, blankless_sign.squeeze, blankless_digits.squeeze]
      rfl
    | case2 e cs he s hs =>
      apply exponent_of_not
      rw [startsExponent_squeeze, startsExponent, he, Bool.true_and]
      exact Bool.eq_false_iff.2 hs
    | case3 e cs he =>
      apply exponent_of_not
      rw [startsExponent_squeeze, startsExponent, Bool.eq_false_iff.2 he, Bool.false_and]
    | case4 => rfl

theorem blankless_decimal : Blankless decimal :=
  blankless_sign.andThen <| blankless_digits.andThen <| blankless_fraction.andThen blankless_exponent

/-! ## Comments -/

theorem commentBody_cons (h : ∀ ds, c = '*' → cs ≠ '/' :: ds) :
    commentBody (c :: cs) = ((commentBody cs).map (c :: ·)).behind [c] := by
  rw [commentBody]
  rintro ds rfl hds
  exact h ds rfl hds

/-- A comment ends where it did. -/
theorem rest_commentBody_squeeze (b : Bool) (cs : List Char) :
    (commentBody (squeeze b cs)).rest = squeeze false (commentBody cs).rest := by
  fun_induction commentBody cs generalizing b with
  | case1 => rfl
  | case2 cs => 
    rw [squeeze_cons rfl, squeeze_cons rfl]
    rfl
  | case3 c cs hne ih =>
    cases hc : isBlank c with
    | false =>
      rw [squeeze_cons hc, commentBody_cons]
      · exact ih false
      · intro ds hstar hds
        obtain ⟨cs', rfl, -⟩ := eq_cons_of_squeeze rfl hds
        exact hne cs' hstar rfl
    | true =>
      cases b with
      | true =>
        rw [squeeze_true_cons hc]
        exact ih true
      | false =>
        rw [squeeze_false_cons hc, commentBody_cons fun _ h => absurd h (by decide)]
        exact ih true

/-- A comment ends with its closing mark, or with the text. -/
theorem endsBlank_source_commentBody (b : Bool) (cs : List Char) :
    endsBlank b (commentBody cs).source = false ∨ (commentBody cs).rest = [] := by
  fun_induction commentBody cs generalizing b with
  | case1 => exact .inr rfl
  | case2 cs => exact .inl rfl
  | case3 c cs hne ih =>
    rw [Scan.behind, endsBlank_append]
    exact ih _

/-! ## Escapes -/

/-- What follows the digits of an escape. -/
def behindDigits (cs : List Char) : List Char :=
  cs.drop ((cs.take 6).takeWhile isHexDigit).length

theorem rest_escape_of_head (h : cs.head?.any isHexDigit = true) :
    (escape cs).rest = (oneSpace (behindDigits cs)).rest := by
  rw [escape_of_head h]
  rfl

theorem escape_cons (hc : isHexDigit c = false) (cs : List Char) :
    escape (c :: cs) = ⟨withoutNul c, [c], cs⟩ := by
  rw [escape, if_neg (Bool.eq_false_iff.1 hc)]

/-- What is left of a run of blanks behind one of them makes no difference. -/
theorem squeeze_true_rest_oneSpace (cs : List Char) :
    squeeze true (oneSpace cs).rest = squeeze true cs := by
  fun_cases oneSpace cs with
  | case1 cs => rw [squeeze_true_cons rfl, squeeze_true_cons rfl]
  | case2 c cs _ hc => rw [squeeze_true_cons (isBlank_of_isSpace hc)]
  | case3 => rfl
  | case4 => rfl

theorem rest_oneSpace_squeeze (cs : List Char) :
    (oneSpace (squeeze false cs)).rest = squeeze true cs := by
  cases cs with
  | nil => rfl
  | cons c cs =>
    cases hc : isBlank c with
    | true =>
      rw [squeeze_false_cons hc, squeeze_true_cons hc]
      rfl
    | false =>
      have hhead : (squeeze false (c :: cs)).head?.any isSpace = false := by
        rw [squeeze_cons hc]
        exact isSpace_of_not_isBlank hc
      rw [oneSpace_of_head hhead, squeeze_of_head (by simpa using hc) false true]

theorem behindDigits_squeeze (cs : List Char) :
    behindDigits (squeeze false cs) = squeeze false (behindDigits cs) := by
  have hdigits : ∀ d ∈ (cs.take 6).takeWhile isHexDigit, isBlank d = false := fun d hd =>
    isBlank_of_isHexDigit (List.all_eq_true.1 List.all_takeWhile d hd)
  have hcs := squeeze_false_append hdigits (behindDigits cs)
  rw [behindDigits, takeWhile_append_drop_length] at hcs
  rw [behindDigits, takeWhile_take_squeeze fun _ => isHexDigit_of_isBlank, hcs, List.drop_left]
  rfl

/-- The digits of an escape are the same, and a blank behind them goes with the whole
of its run. -/
theorem escape_squeeze_of_isHexDigit (h : cs.head?.any isHexDigit = true) :
    (escape (squeeze false cs)).value = (escape cs).value ∧
      (escape (squeeze false cs)).rest = squeeze true (behindDigits cs) := by
  have h' : (squeeze false cs).head?.any isHexDigit = true :=
    (any_head?_squeeze (fun _ => isHexDigit_of_isBlank) cs).trans h
  constructor
  · rw [escape_of_head h, escape_of_head h']
    dsimp only
    rw [takeWhile_take_squeeze fun _ => isHexDigit_of_isBlank]
  · rw [rest_escape_of_head h', behindDigits_squeeze, rest_oneSpace_squeeze]

/-- An escape ends in step. -/
theorem exists_rest_escape_squeeze (cs : List Char) :
    ∃ b, (escape (squeeze false cs)).rest = squeeze b (escape cs).rest := by
  cases cs with
  | nil => exact ⟨false, rfl⟩
  | cons c cs =>
    cases hhex : isHexDigit c with
    | true =>
      have hhead : (c :: cs).head?.any isHexDigit = true := hhex
      refine ⟨true, ?_⟩
      rw [(escape_squeeze_of_isHexDigit hhead).2, rest_escape_of_head hhead,
        squeeze_true_rest_oneSpace]
    | false =>
      cases hc : isBlank c with
      | false =>
        refine ⟨false, ?_⟩
        rw [squeeze_cons hc, escape_cons hhex, escape_cons hhex]
      | true =>
        refine ⟨true, ?_⟩
        rw [squeeze_false_cons hc, escape_cons rfl, escape_cons hhex]

/-! ## Strings -/

theorem squeeze_false_ne_nil (h : cs ≠ []) : squeeze false cs ≠ [] := by
  cases cs with
  | nil => exact absurd rfl h
  | cons c cs =>
    cases hc : isBlank c with
    | false => simp [squeeze_cons hc]
    | true => simp [squeeze_false_cons hc]

theorem stringBody_cons {quote : Char} (hquote : ¬ (c == quote) = true)
    (hline : ¬ isLineEnd c = true) (hback : ¬ (c == '\\') = true) (cs : List Char) :
    stringBody quote (c :: cs) =
      ((stringBody quote cs).map (·.map (withoutNul c :: ·))).behind [c] := by
  rw [stringBody, if_neg hquote, if_neg hline, if_neg hback]

/-- A string is cut off in front of a line end. -/
theorem atLineEnd_rest_stringBody {quote : Char} (h : (stringBody quote cs).value = none) :
    atLineEnd (stringBody quote cs).rest = true := by
  fun_induction stringBody quote cs with
  | case1 | case2 | case4 => cases h
  | case3 c cs _ hline => exact hline
  | case5 c cs hc hline hback hnil hend gap _ ih => exact ih h
  | case6 c cs hc hline hback hnil hend e _ ih =>
    exact ih (by simpa [Scan.behind, Scan.map] using h)
  | case7 c cs hc hline hback ih => exact ih (by simpa [Scan.behind, Scan.map] using h)

/-- No string of a squeezed text is cut off. -/
theorem isSome_stringBody_squeeze (quote : Char) (b : Bool) (cs : List Char) :
    (stringBody quote (squeeze b cs)).value.isSome = true := by
  by_contra h
  have hend := atLineEnd_rest_stringBody (by simpa using h)
  obtain ⟨d, ds, hrest⟩ : ∃ d ds, (stringBody quote (squeeze b cs)).rest = d :: ds := by
    cases hrest : (stringBody quote (squeeze b cs)).rest with
    | nil => rw [hrest] at hend; cases hend
    | cons d ds => exact ⟨d, ds, rfl⟩
  have hmem : d ∈ squeeze b cs := by
    rw [← stringBody_splits quote (squeeze b cs), hrest]
    exact List.mem_append_right _ List.mem_cons_self
  rw [hrest] at hend
  exact Bool.eq_false_iff.1 (isLineEnd_of_mem_squeeze hmem) hend

section

variable {quote : Char} (hquote : quote = '"' ∨ quote = '\'')

include hquote

theorem rest_stringBody_space (cs : List Char) :
    (stringBody quote (' ' :: cs)).rest = (stringBody quote cs).rest := by
  have hspace : ¬ (' ' == quote) = true := by rcases hquote with rfl | rfl <;> decide
  rw [stringBody_cons hspace (by decide) (by decide)]
  rfl

/-- A backslash of a squeezed string takes an escape with it. -/
theorem rest_stringBody_backslash (hne : cs ≠ []) (b : Bool) :
    (stringBody quote (squeeze b ('\\' :: cs))).rest =
      (stringBody quote (escape (squeeze false cs)).rest).rest := by
  have hback : ¬ ('\\' == quote) = true := by rcases hquote with rfl | rfl <;> decide
  rw [squeeze_cons rfl, stringBody_escape hback (squeeze_false_ne_nil hne) (atLineEnd_squeeze _ _)]
  rfl

/-- A string ends where it did, if it is not cut off. -/
theorem rest_stringBody_squeeze (b : Bool) (h : (stringBody quote cs).value.isSome = true) :
    (stringBody quote (squeeze b cs)).rest = squeeze false (stringBody quote cs).rest := by
  fun_induction stringBody quote cs generalizing b with
  | case1 =>
    rw [squeeze_nil, stringBody]
    rfl
  | case2 c cs hc =>
    have hplain : isBlank quote = false := by rcases hquote with rfl | rfl <;> rfl
    rw [beq_iff_eq] at hc
    rw [hc, squeeze_cons hplain, stringBody, if_pos (beq_self_eq_true quote)]
  | case3 => cases h
  | case4 c cs hc hline hback hnil =>
    rw [List.isEmpty_iff] at hnil
    rw [beq_iff_eq] at hback
    subst hnil hback
    rw [squeeze_cons rfl, squeeze_nil, stringBody, if_neg hc, if_neg hline]
    rfl
  | case5 c cs hc hline hback hnil hend gap _ ih =>
    rw [beq_iff_eq] at hback
    subst hback
    obtain ⟨d, ds, rfl⟩ := List.exists_cons_of_ne_nil (mt List.isEmpty_iff.2 hnil)
    have hd : isBlank d = true := isBlank_of_isLineEnd hend
    -- what was a line end is escaped now
    rw [rest_stringBody_backslash hquote (List.cons_ne_nil d ds), squeeze_false_cons hd,
      escape_cons rfl, ← squeeze_true_cons hd, ← squeeze_true_rest_oneSpace]
    exact ih true h
  | case6 c cs hc hline hback hnil hend e _ ih =>
    rw [beq_iff_eq] at hback
    subst hback
    obtain ⟨b', hrest⟩ := exists_rest_escape_squeeze cs
    rw [rest_stringBody_backslash hquote (mt List.isEmpty_iff.2 hnil), hrest]
    exact ih b' (by simpa [Scan.behind, Scan.map] using h)
  | case7 c cs hc hline hback ih =>
    have ih (b : Bool) := ih b (by simpa [Scan.behind, Scan.map] using h)
    cases hblank : isBlank c with
    | false =>
      rw [squeeze_cons hblank, stringBody_cons hc hline hback]
      exact ih false
    | true =>
      cases b with
      | true =>
        rw [squeeze_true_cons hblank]
        exact ih true
      | false =>
        rw [squeeze_false_cons hblank, rest_stringBody_space hquote]
        exact ih true

/-- A string ends with its quote, or with the text. -/
theorem endsBlank_source_stringBody (b : Bool) (h : (stringBody quote cs).value.isSome = true) :
    endsBlank b (stringBody quote cs).source = false ∨ (stringBody quote cs).rest = [] := by
  fun_induction stringBody quote cs generalizing b with
  | case1 => exact .inr rfl
  | case2 c cs hc =>
    rw [beq_iff_eq] at hc
    rcases hquote with rfl | rfl <;> (rw [hc]; exact .inl rfl)
  | case3 => cases h
  | case4 => exact .inr rfl
  | case5 c cs hc hline hback hnil hend gap _ ih =>
    rw [Scan.behind, endsBlank_append]
    exact ih _ h
  | case6 c cs hc hline hback hnil hend e _ ih =>
    rw [Scan.behind, endsBlank_append]
    exact ih _ (by simpa [Scan.behind, Scan.map] using h)
  | case7 c cs hc hline hback ih =>
    rw [Scan.behind, endsBlank_append]
    exact ih _ (by simpa [Scan.behind, Scan.map] using h)

end

/-! ## Addresses -/

/-- The text is at the end of an address, and leaves the other one. -/
def ClosesAddress (cs rest : List Char) : Prop := cs = ')' :: rest ∨ cs = [] ∧ rest = []

section

variable {rest : List Char}

theorem ClosesAddress.addressBody_eq (h : ClosesAddress cs rest) :
    (addressBody cs).value = some [] ∧ (addressBody cs).rest = rest := by
  rcases h with rfl | ⟨rfl, rfl⟩
  · rw [addressBody, if_pos (by decide)]
    exact ⟨rfl, rfl⟩
  · rw [addressBody]
    exact ⟨rfl, rfl⟩

theorem ClosesAddress.rest_addressEnd (h : ClosesAddress cs rest) : (addressEnd cs).rest = rest := by
  rcases h with rfl | ⟨rfl, rfl⟩ <;> rfl

theorem closes_of_addressEnd (hspace : cs.head?.any isBlank = false)
    (h : (addressEnd cs).value.isSome = true) : ClosesAddress cs (addressEnd cs).rest := by
  revert h
  fun_cases addressEnd cs with
  | case1 => exact fun _ => .inr ⟨rfl, rfl⟩
  | case2 c cs hc =>
    rw [beq_iff_eq] at hc
    rw [hc]
    exact fun _ => .inl rfl
  | case3 c cs _ hc =>
    rw [List.head?_cons, Option.any_some, isBlank_of_isSpace hc] at hspace
    cases hspace
  | case4 => exact fun h => by cases h

/-- Nothing but blanks is in front of the end of an address. -/
theorem closes_squeeze_of_addressEnd (h : (addressEnd cs).value.isSome = true) :
    ClosesAddress (squeeze true cs) (squeeze false (addressEnd cs).rest) := by
  fun_induction addressEnd cs with
  | case1 => exact .inr ⟨rfl, rfl⟩
  | case2 c cs hc =>
    rw [beq_iff_eq] at hc
    rw [hc]
    exact .inl (squeeze_cons rfl true cs)
  | case3 c cs _ hc ih =>
    rw [squeeze_true_cons (isBlank_of_isSpace hc)]
    exact ih h
  | case4 => cases h

end

theorem addressBody_space (cs : List Char) :
    addressBody (' ' :: cs) = (addressEnd cs).behind [' '] := by
  rw [addressBody, if_neg (by decide), if_pos (by decide)]

/-- An address ends where it did, if neither it nor the squeezed one is malformed. -/
theorem rest_addressBody_squeeze (b : Bool) (h : (addressBody cs).value.isSome = true)
    (h' : (addressBody (squeeze b cs)).value.isSome = true) :
    (addressBody (squeeze b cs)).rest = squeeze false (addressBody cs).rest := by
  fun_induction addressBody cs generalizing b with
  | case1 =>
    rw [squeeze_nil, addressBody]
    rfl
  | case2 c cs hc =>
    rw [beq_iff_eq] at hc
    rw [hc, squeeze_cons rfl, addressBody, if_pos (by decide)]
  | case3 c cs hc hspace =>
    have hcloses := closes_squeeze_of_addressEnd h
    cases b with
    | true =>
      rw [squeeze_true_cons (isBlank_of_isSpace hspace)]
      exact hcloses.addressBody_eq.2
    | false =>
      rw [squeeze_false_cons (isBlank_of_isSpace hspace), addressBody_space]
      exact hcloses.rest_addressEnd
  | case4 => cases h
  | case5 => cases h
  | case6 c cs hc hspace hbad hback hend e _ ih =>
    rw [beq_iff_eq] at hback
    subst hback
    obtain ⟨b', hrest⟩ := exists_rest_escape_squeeze cs
    have hstep : addressBody (squeeze b ('\\' :: cs)) =
        ((addressBody (squeeze b' e.rest)).map
          (·.map ((escape (squeeze false cs)).value :: ·))).behind
            ('\\' :: (escape (squeeze false cs)).source) := by
      rw [squeeze_cons rfl, addressBody, if_neg (by decide), if_neg (by decide),
        if_neg (by decide), if_pos (by decide), if_neg (atLineEnd_squeeze _ _)]
      dsimp only
      rw [hrest]
    rw [hstep] at h' ⊢
    exact ih b' (by simpa [Scan.behind, Scan.map] using h)
      (by simpa [Scan.behind, Scan.map] using h')
  | case7 c cs hc hspace hbad hback ih =>
    have ih (b : Bool) := ih b (by simpa [Scan.behind, Scan.map] using h)
    cases hblank : isBlank c with
    | false =>
      rw [squeeze_cons hblank, addressBody, if_neg hc, if_neg hspace, if_neg hbad,
        if_neg hback] at h' ⊢
      exact ih false (by simpa [Scan.behind, Scan.map] using h')
    | true =>
      cases b with
      | true =>
        rw [squeeze_true_cons hblank] at h' ⊢
        exact ih true h'
      | false =>
        -- a blank that is no space of an address would become one, so the address ends there
        rw [squeeze_false_cons hblank, addressBody_space] at h' ⊢
        have hcloses := closes_of_addressEnd (any_head?_squeeze_true cs) h'
        have hbody := hcloses.addressBody_eq
        exact hbody.2.symm.trans (ih true (by rw [hbody.1]; rfl))

theorem endsBlank_source_addressEnd (b : Bool) (h : (addressEnd cs).value.isSome = true) :
    endsBlank b (addressEnd cs).source = false ∨ (addressEnd cs).rest = [] := by
  fun_induction addressEnd cs generalizing b with
  | case1 => exact .inr rfl
  | case2 c cs hc =>
    rw [beq_iff_eq] at hc
    rw [hc]
    exact .inl rfl
  | case3 c cs _ _ ih =>
    rw [Scan.behind, endsBlank_append]
    exact ih _ h
  | case4 => cases h

/-- An address ends with its parenthesis, or with the text. -/
theorem endsBlank_source_addressBody (b : Bool) (h : (addressBody cs).value.isSome = true) :
    endsBlank b (addressBody cs).source = false ∨ (addressBody cs).rest = [] := by
  fun_induction addressBody cs generalizing b with
  | case1 => exact .inr rfl
  | case2 c cs hc =>
    rw [beq_iff_eq] at hc
    rw [hc]
    exact .inl rfl
  | case3 c cs _ _ =>
    rw [Scan.behind, endsBlank_append]
    exact endsBlank_source_addressEnd _ h
  | case4 => cases h
  | case5 => cases h
  | case6 c cs _ _ _ _ _ e _ ih =>
    rw [Scan.behind, endsBlank_append]
    exact ih _ (by simpa [Scan.behind, Scan.map] using h)
  | case7 c cs _ _ _ _ ih =>
    rw [Scan.behind, endsBlank_append]
    exact ih _ (by simpa [Scan.behind, Scan.map] using h)

/-- Behind a blank, the spaces that a text starts with count for nothing. -/
theorem squeeze_true_dropWhile_isSpace (cs : List Char) :
    squeeze true (cs.dropWhile isSpace) = squeeze true cs := by
  induction cs with
  | nil => rfl
  | cons c cs ih =>
    rw [List.dropWhile_cons]
    split
    · rename_i hc
      rw [ih, squeeze_true_cons (isBlank_of_isSpace hc)]
    · rfl

theorem dropWhile_isSpace_squeeze (cs : List Char) :
    (squeeze false cs).dropWhile isSpace = squeeze true (cs.dropWhile isSpace) := by
  have hhead (ds : List Char) : (squeeze true ds).dropWhile isSpace = squeeze true ds := by
    cases hds : squeeze true ds with
    | nil => rfl
    | cons d ds' =>
      have hd := any_head?_squeeze_true ds
      rw [hds] at hd
      rw [List.dropWhile_cons_of_neg (by simp [isSpace_of_not_isBlank (c := d) hd])]
  rw [squeeze_true_dropWhile_isSpace]
  cases cs with
  | nil => rfl
  | cons c cs =>
    cases hc : isBlank c with
    | true =>
      rw [squeeze_false_cons hc, squeeze_true_cons hc, List.dropWhile_cons_of_pos (by decide),
        hhead]
    | false =>
      rw [squeeze_of_head (by simpa using hc) false true, hhead]

/-- The body of an address is all of it but the spaces it starts with. -/
theorem exists_of_address {s : Scan Token} (h : address cs = some s) :
    s.source = cs.takeWhile isSpace ++ (addressBody (cs.dropWhile isSpace)).source ∧
      s.rest = (addressBody (cs.dropWhile isSpace)).rest ∧
      (s.value ≠ .badUrl ↔ (addressBody (cs.dropWhile isSpace)).value.isSome = true) := by
  simp only [address] at h
  split at h
  · cases h
  · cases h
    refine ⟨rfl, rfl, ?_⟩
    simp only [Scan.andThen, Scan.behind, Scan.map, run]
    split
    · rename_i htext
      simp [htext]
    · rename_i htext
      simp [htext]

/-- The text of an address without the spaces it starts with. -/
theorem dropWhile_source_address {s : Scan Token} (h : address cs = some s) :
    s.source.dropWhile isSpace = (addressBody (cs.dropWhile isSpace)).source := by
  have hspaces : ∀ x ∈ cs.takeWhile isSpace, isSpace x = true :=
    List.all_eq_true.1 List.all_takeWhile
  rw [(exists_of_address h).1, List.dropWhile_append_of_pos hspaces]
  have hsplits := addressBody_splits (cs.dropWhile isSpace)
  cases hbody : (addressBody (cs.dropWhile isSpace)).source with
  | nil => rfl
  | cons c body =>
    have hc := any_head?_dropWhile (p := isSpace) cs
    rw [← hsplits, hbody, List.cons_append, List.head?_cons, Option.any_some] at hc
    rw [List.dropWhile_cons_of_neg (by simp [hc])]

theorem source_addressBody_ne_nil (h : ¬ (addressBody cs).value.isSome = true) :
    (addressBody cs).source ≠ [] := by
  revert h
  fun_cases addressBody cs with
  | case1 => exact fun h => absurd rfl h
  | case2 | case3 | case4 | case5 | case6 | case7 => exact fun _ => List.cons_ne_nil _ _

/-- An address ends where it did, if it is malformed as before or not at all. -/
theorem rest_address_squeeze {s s' : Scan Token} (h : address cs = some s)
    (h' : address (squeeze false cs) = some s') (hvalue : s'.value = s.value)
    (hbad : s.value = .badUrl → s'.source.dropWhile isSpace = s.source.dropWhile isSpace)
    (b : Bool) : s'.rest = squeeze (endsBlank b s.source) s.rest := by
  obtain ⟨hsource, hrest, hgood⟩ := exists_of_address h
  obtain ⟨-, hrest', hgood'⟩ := exists_of_address h'
  rw [dropWhile_isSpace_squeeze] at hrest' hgood'
  rw [hvalue] at hgood'
  rw [hrest, hrest', hsource, endsBlank_append]
  by_cases hmalformed : s.value = .badUrl
  · -- the malformed text is its own squeezed one, and what follows is what was cut off
    have hbody := hbad hmalformed
    rw [dropWhile_source_address h', dropWhile_source_address h, dropWhile_isSpace_squeeze] at hbody
    have hsplits := addressBody_splits (cs.dropWhile isSpace)
    have hsplits' := addressBody_splits (squeeze true (cs.dropWhile isSpace))
    have hne := source_addressBody_ne_nil (mt hgood.2 (not_not.2 hmalformed))
    rw [Scan.Splits] at hsplits hsplits'
    rw [hbody] at hsplits'
    generalize (addressBody (cs.dropWhile isSpace)).source = body at hsplits hsplits' hne ⊢
    generalize (addressBody (squeeze true (cs.dropWhile isSpace))).rest = rest' at hsplits' ⊢
    have hself : squeeze true body = body := by
      have := squeeze_squeeze true (cs.dropWhile isSpace)
      rw [← hsplits'] at this
      exact (squeeze_eq_of_append this).1
    rw [← hsplits, squeeze_append, hself] at hsplits'
    rw [endsBlank_of_ne_nil hne _ true]
    exact List.append_cancel_left hsplits'
  · have hsome := hgood.1 hmalformed
    rw [rest_addressBody_squeeze true hsome (hgood'.1 hmalformed)]
    rcases endsBlank_source_addressBody (endsBlank b (cs.takeWhile isSpace)) hsome with hend | hnil
    · rw [hend]
    · rw [hnil]
      rfl

end CssPruning.Token
