import CssPruning.Token.Scanner

/-!
# Literals

Scanners of the things that carry text or a number of their own: strings,
comments, numbers and addresses.
-/

set_option autoImplicit false

namespace CssPruning.Token

/-! ## Strings -/

/-- The text of a string after its opening quote, or `none` where the line ends
first.  The closing quote is taken, the line end is not; a backslash before a
line end drops both, and one at the end of the text drops itself. -/
def stringBody (quote : Char) : List Char → Scan (Option (List Char))
  | [] => ⟨some [], [], []⟩
  | c :: cs =>
    if c == quote then ⟨some [], [c], cs⟩
    else if isLineEnd c then ⟨none, [], c :: cs⟩
    else if c == '\\' then
      if cs.isEmpty then ⟨some [], [c], []⟩
      else if atLineEnd cs then
        let gap := oneSpace cs
        have : gap.rest.length ≤ cs.length := (oneSpace_splits cs).length_rest_le
        (stringBody quote gap.rest).behind (c :: gap.source)
      else
        let e := escape cs
        have : e.rest.length ≤ cs.length := (escape_splits cs).length_rest_le
        ((stringBody quote e.rest).map (·.map (e.value :: ·))).behind (c :: e.source)
    else ((stringBody quote cs).map (·.map (withoutNul c :: ·))).behind [c]
termination_by cs => cs.length
decreasing_by all_goals grind

theorem stringBody_splits (quote : Char) (cs : List Char) : (stringBody quote cs).Splits cs := by
  fun_induction stringBody quote cs with
  | case1 => rfl
  | case2 => rfl
  | case3 => rfl
  | case4 c cs _ _ _ h => simp_all [Scan.Splits]
  | case5 c cs _ _ _ _ _ gap _ ih =>
    have h := oneSpace_splits cs
    have := ih.behind (c :: gap.source)
    simp only [Scan.Splits] at h this ⊢
    rw [this, List.cons_append, h]
  | case6 c cs _ _ _ _ _ e _ ih =>
    have h := escape_splits cs
    have := ((Scan.splits_map (Option.map (e.value :: ·)) _ _).2 ih).behind (c :: e.source)
    simp only [Scan.Splits] at h this ⊢
    rw [this, List.cons_append, h]
  | case7 c cs _ _ _ ih =>
    exact ((Scan.splits_map (Option.map (withoutNul c :: ·)) _ _).2 ih).behind [c]

/-! ## Comments -/

/-- The text of a comment after its opening mark, up to the first closing mark
or the end of the text. -/
def commentBody : List Char → Scan (List Char)
  | [] => ⟨[], [], []⟩
  | '*' :: '/' :: cs => ⟨[], ['*', '/'], cs⟩
  | c :: cs => ((commentBody cs).map (c :: ·)).behind [c]

theorem commentBody_splits (cs : List Char) : (commentBody cs).Splits cs := by
  fun_induction commentBody cs with
  | case1 => rfl
  | case2 => rfl
  | case3 c cs _ ih => exact ((Scan.splits_map (c :: ·) _ _).2 ih).behind [c]

/-! ## Numbers -/

/-- A sign, if there is one. -/
def sign : List Char → Scan Unit
  | c :: cs => if c == '+' || c == '-' then ⟨(), [c], cs⟩ else ⟨(), [], c :: cs⟩
  | [] => ⟨(), [], []⟩

/-- A point and the digits after it, if there is at least one digit. -/
def fraction : List Char → Scan Unit
  | '.' :: d :: cs =>
    if d.isDigit then (run Char.isDigit (d :: cs)).behind ['.'] else ⟨(), [], '.' :: d :: cs⟩
  | cs => ⟨(), [], cs⟩

/-- An exponent, if there is at least one digit. -/
def exponent : List Char → Scan Unit
  | e :: cs =>
    if e == 'e' || e == 'E' then
      let s := sign cs
      if s.rest.head?.any Char.isDigit then (run Char.isDigit s.rest).behind (e :: s.source)
      else ⟨(), [], e :: cs⟩
    else ⟨(), [], e :: cs⟩
  | [] => ⟨(), [], []⟩

/-- The text starts with a number. -/
def startsNumber (cs : List Char) : Bool :=
  match (sign cs).rest with
  | '.' :: d :: _ => d.isDigit
  | d :: _ => d.isDigit
  | [] => false

theorem sign_splits (cs : List Char) : (sign cs).Splits cs := by
  fun_cases sign cs <;> rfl

theorem fraction_splits (cs : List Char) : (fraction cs).Splits cs := by
  fun_cases fraction cs with
  | case1 d cs _ => exact (run_splits _ _).behind ['.']
  | case2 => rfl
  | case3 => rfl

theorem exponent_splits (cs : List Char) : (exponent cs).Splits cs := by
  fun_cases exponent cs with
  | case1 e cs _ s _ =>
    have := (run_splits Char.isDigit s.rest).behind (e :: s.source)
    have h := sign_splits cs
    simp only [Scan.Splits] at h this ⊢
    rw [this, List.cons_append, h]
  | case2 => rfl
  | case3 => rfl
  | case4 => rfl

/-- A sign, digits, a fraction and an exponent, each where there is one. -/
def decimal (cs : List Char) : Scan Unit :=
  (sign cs).andThen fun cs => (run Char.isDigit cs).andThen fun cs => (fraction cs).andThen exponent

/-- A number with what is written right behind it: a percent sign, a unit, or
nothing. -/
def numeral (cs : List Char) : Scan Token :=
  let n := decimal cs
  match n.rest with
  | '%' :: cs => ⟨.percentage, n.source ++ ['%'], cs⟩
  | _ =>
    if startsName n.rest then
      n.andThen fun cs => (name cs).map fun unit => .dimension (String.ofList unit)
    else n.map fun _ => .number

theorem decimal_splits (cs : List Char) : (decimal cs).Splits cs :=
  (sign_splits cs).andThen <| (run_splits _ _).andThen <| (fraction_splits _).andThen <|
    exponent_splits _

theorem numeral_splits (cs : List Char) : (numeral cs).Splits cs := by
  have h := decimal_splits cs
  fun_cases numeral cs with
  | case1 n cs' hr =>
    simp only [Scan.Splits] at h ⊢
    rw [List.append_assoc, ← h, hr]
    rfl
  | case2 => exact h.andThen ((Scan.splits_map _ _ _).2 (name_splits _))
  | case3 => exact h

/-! ## Addresses

An address is what stands between `url(` and its closing parenthesis, when it
is written without quotes.  A quote, an opening parenthesis, a control character
or a blank inside makes it malformed, and then it is read to its end all the
same. -/

/-- The rest of a malformed address.  A backslash keeps a closing parenthesis or
another backslash from counting. -/
def badAddress : List Char → Scan Unit
  | [] => ⟨(), [], []⟩
  | ')' :: cs => ⟨(), [')'], cs⟩
  | '\\' :: ')' :: cs => (badAddress cs).behind ['\\', ')']
  | '\\' :: '\\' :: cs => (badAddress cs).behind ['\\', '\\']
  | c :: cs => (badAddress cs).behind [c]

/-- What follows the blanks after an address: the closing parenthesis or the end
of the text, or else the address is malformed. -/
def addressEnd : List Char → Scan (Option (List Char))
  | [] => ⟨some [], [], []⟩
  | c :: cs =>
    if c == ')' then ⟨some [], [c], cs⟩
    else if isSpace c then (addressEnd cs).behind [c]
    else ((badAddress cs).map fun _ => none).behind [c]

/-- The text of an address, or `none` where it is malformed. -/
def addressBody : List Char → Scan (Option (List Char))
  | [] => ⟨some [], [], []⟩
  | c :: cs =>
    if c == ')' then ⟨some [], [c], cs⟩
    else if isSpace c then (addressEnd cs).behind [c]
    else if isControl c || c == '"' || c == '\'' || c == '(' then
      ((badAddress cs).map fun _ => none).behind [c]
    else if c == '\\' then
      if atLineEnd cs then ((badAddress cs).map fun _ => none).behind [c]
      else
        let e := escape cs
        have : e.rest.length ≤ cs.length := (escape_splits cs).length_rest_le
        ((addressBody e.rest).map (·.map (e.value :: ·))).behind (c :: e.source)
    else ((addressBody cs).map (·.map (withoutNul c :: ·))).behind [c]
termination_by cs => cs.length
decreasing_by all_goals grind

/-- What follows `url(`, unless it is a quoted string. -/
def address (cs : List Char) : Option (Scan Token) :=
  let gap := run isSpace cs
  if gap.rest.head?.any fun c => c == '"' || c == '\'' then none
  else some <| gap.andThen fun cs => (addressBody cs).map fun
    | some text => .url (String.ofList text)
    | none => .badUrl

theorem badAddress_splits (cs : List Char) : (badAddress cs).Splits cs := by
  fun_induction badAddress cs with
  | case1 => rfl
  | case2 => rfl
  | case3 cs ih => exact ih.behind _
  | case4 cs ih => exact ih.behind _
  | case5 c cs _ _ _ ih => exact ih.behind [c]

theorem addressEnd_splits (cs : List Char) : (addressEnd cs).Splits cs := by
  fun_induction addressEnd cs with
  | case1 => rfl
  | case2 => rfl
  | case3 c cs _ _ ih => exact ih.behind [c]
  | case4 c cs => exact ((Scan.splits_map _ _ _).2 (badAddress_splits cs)).behind [c]

theorem addressBody_splits (cs : List Char) : (addressBody cs).Splits cs := by
  fun_induction addressBody cs with
  | case1 => rfl
  | case2 => rfl
  | case3 c cs => exact (addressEnd_splits cs).behind [c]
  | case4 c cs => exact ((Scan.splits_map _ _ _).2 (badAddress_splits cs)).behind [c]
  | case5 c cs => exact ((Scan.splits_map _ _ _).2 (badAddress_splits cs)).behind [c]
  | case6 c cs _ _ _ _ _ e _ ih =>
    have h := escape_splits cs
    have := ((Scan.splits_map (Option.map (e.value :: ·)) _ _).2 ih).behind (c :: e.source)
    simp only [Scan.Splits] at h this ⊢
    rw [this, List.cons_append, h]
  | case7 c cs _ _ _ _ ih =>
    exact ((Scan.splits_map (Option.map (withoutNul c :: ·)) _ _).2 ih).behind [c]

theorem address_splits {cs : List Char} {s : Scan Token} (h : address cs = some s) :
    s.Splits cs := by
  simp only [address] at h
  split at h
  · cases h
  · cases h
    exact (run_splits _ _).andThen ((Scan.splits_map _ _ _).2 (addressBody_splits _))

end CssPruning.Token
