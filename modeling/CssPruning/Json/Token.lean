import CssPruning.Decimal.Reader
import CssPruning.Json.Basic

/-!
# Tokens of JSON text

A JSON text is read as far as it is one: the last token may be a fault.  A
reader that passes over a value does not mind everything that one that wants it
minds, so two kinds of token are whole and yet have no value: a number that no
double can hold, and a string with half of a surrogate pair.
-/

set_option autoImplicit false

namespace CssPruning.Json

/-- What is wrong with a JSON text. -/
inductive Flaw where
  /-- the text ends too early -/
  | cutShort
  | malformed
  deriving DecidableEq, Repr, Inhabited

/-- Where a text goes no further: the flaw for who wants any value, for who wants a
name, which has to be a string, and for who skips the value. -/
structure Stop where
  wanted : Flaw
  named : Flaw
  skipped : Flaw
  deriving DecidableEq, Repr, Inhabited

/-- The same flaw for everyone. -/
def Stop.of (f : Flaw) : Stop := ⟨f, f, f⟩

/-- A token of JSON text. -/
inductive Token where
  | openArray
  | closeArray
  | openObject
  | closeObject
  | comma
  | colon
  /-- a word or a number; `none` for a number out of range -/
  | scalar (value : Option Json)
  /-- a string; `none` for one with half of a surrogate pair -/
  | string (text : Option String)
  /-- the text goes no further, inside a string or elsewhere -/
  | fault (inString : Bool) (stop : Stop)
  deriving Inhabited

namespace Token

/-- A token and what follows it. -/
abbrev Step := Token × List Char

/-- A fault in something that is no string, and so no name. -/
def stop (f : Flaw) : Step := (.fault false ⟨f, .malformed, f⟩, [])

/-! ## Words -/

/-- The rest of a word that has to follow. -/
def word (value : Json) : List Char → List Char → Step
  | [], cs => (.scalar (some value), cs)
  | _ :: _, [] => stop .cutShort
  | w :: ws, c :: cs => if w == c then word value ws cs else stop .malformed

theorem length_word_le (value : Json) (ws cs : List Char) :
    (word value ws cs).2.length ≤ cs.length := by
  fun_induction word value ws cs <;> simp_all [stop]
  omega

/-! ## Numbers -/

/-- The largest significand that is kept exactly. -/
def maxSignificand : Nat := 0xFFFFFFFFFFFFFFFF

/-- The significand of digits after a significand, as far as it is kept exactly,
and the digits left over. -/
def significand (n : Nat) : List Char → Nat × List Char
  | [] => (n, [])
  | d :: ds =>
    let m := 10 * n + (d.toNat - '0'.toNat)
    if maxSignificand < m then (n, d :: ds) else significand m ds

/-- The double nearest to a power of ten. -/
def powerOfTen (k : Nat) : Float := Float.ofScientific 1 false k

/-- A double times or over a power of ten, in steps of at most 308 places;
`none` beyond the range of doubles. -/
def scale (x : Float) (exponent : Int) : Option Float :=
  if 0 ≤ exponent then
    if exponent ≤ 308 then
      let y := x * powerOfTen exponent.toNat
      if y.isInf then none else some y
    else if x == 0.0 then some x else none
  else if -308 ≤ exponent then some (x / powerOfTen (-exponent).toNat)
  else if x == 0.0 then some x
  else scale (x / powerOfTen 308) (exponent + 308)
termination_by exponent.natAbs
decreasing_by omega

/-- The number with the given sign, whole digits, digits after the point, and
exponent; `none` where the text has no point or no exponent. -/
def numberValue (negative : Bool) (whole : List Char) (fraction : Option (List Char))
    (exponent : Option Int) : Option Json :=
  let (n, dropped) := significand 0 whole
  let signed (x : Float) : Float := if negative then -x else x
  match fraction, exponent, dropped with
  | none, none, [] =>
    if !negative then some (integer n)
    else if 0 < n && n ≤ 0x8000000000000000 then some (integer (-n))
    else some (float (-Float.ofNat n))
  | _, _, _ =>
    let ds := fraction.getD []
    let (m, left) := significand n ds
    let e := exponent.getD 0
    if 0x80000000 ≤ e.natAbs then
      if m != 0 && 0 < e then none else some (float (signed 0.0))
    else
      (scale (Float.ofNat m) (dropped.length - (ds.length - left.length : Nat) + e)).map
        fun x => float (signed x)

/-- Digits that have to be there, and what follows them. -/
def digits (cs : List Char) (k : List Char → List Char → Step) : Step :=
  let ds := cs.takeWhile Char.isDigit
  let rest := cs.dropWhile Char.isDigit
  if ds.isEmpty then
    (.fault false ⟨if rest.isEmpty then .cutShort else .malformed, .malformed, .malformed⟩, [])
  else k ds rest

/-- The exponent at the head of a text, if there is one. -/
def exponentStep (cs : List Char) (k : Option Int → List Char → Step) : Step :=
  match cs with
  | e :: r =>
    if e == 'e' || e == 'E' then
      let s := Decimal.splitSign r
      digits s.2 fun ds rest =>
        k (some (if s.1 then -(Decimal.ofDigits ds : Int) else Decimal.ofDigits ds)) rest
    else k none (e :: r)
  | [] => k none []

/-- The fraction at the head of a text, if there is one. -/
def fractionStep (cs : List Char) (k : Option (List Char) → List Char → Step) : Step :=
  match cs with
  | '.' :: r => digits r fun ds rest => k (some ds) rest
  | _ => k none cs

theorem length_dropWhile_le (p : Char → Bool) (cs : List Char) :
    (cs.dropWhile p).length ≤ cs.length :=
  (List.dropWhile_sublist p).length_le

theorem length_digits_le {cs : List Char} {k : List Char → List Char → Step}
    (h : ∀ ds rest, (k ds rest).2.length ≤ rest.length) : (digits cs k).2.length ≤ cs.length := by
  simp only [digits]
  split
  · exact Nat.zero_le _
  · exact Nat.le_trans (h _ _) (length_dropWhile_le _ _)

theorem length_splitSign_le (cs : List Char) :
    (Decimal.splitSign cs).2.length ≤ cs.length := by
  fun_cases Decimal.splitSign cs <;> simp

theorem length_exponentStep_le {cs : List Char} {k : Option Int → List Char → Step}
    (h : ∀ e rest, (k e rest).2.length ≤ rest.length) :
    (exponentStep cs k).2.length ≤ cs.length := by
  unfold exponentStep
  split
  · rename_i e r
    split
    · have := length_splitSign_le r
      exact Nat.le_trans (length_digits_le fun _ _ => h _ _) (Nat.le_succ_of_le this)
    · exact h _ _
  · exact h _ _

theorem length_fractionStep_le {cs : List Char} {k : Option (List Char) → List Char → Step}
    (h : ∀ ds rest, (k ds rest).2.length ≤ rest.length) :
    (fractionStep cs k).2.length ≤ cs.length := by
  unfold fractionStep
  split
  · exact Nat.le_trans (length_digits_le fun _ _ => h _ _) (Nat.le_succ _)
  · exact h _ _

theorem length_digits_cons_le {c : Char} {cs : List Char} {k : List Char → List Char → Step}
    (hc : c.isDigit = true) (h : ∀ ds rest, (k ds rest).2.length ≤ rest.length) :
    (digits (c :: cs) k).2.length ≤ cs.length := by
  simp only [digits, List.takeWhile_cons, List.dropWhile_cons, hc, if_true, List.isEmpty_cons]
  exact Nat.le_trans (h _ _) (length_dropWhile_le _ _)

/-- What a number goes on with after its whole digits. -/
def afterWhole (negative : Bool) (whole rest : List Char) : Step :=
  if whole.head? == some '0' && 1 < whole.length then stop .malformed
  else fractionStep rest fun fraction rest => exponentStep rest fun exponent rest =>
    (.scalar (numberValue negative whole fraction exponent), rest)

/-- A number after its sign. -/
def number (negative : Bool) (cs : List Char) : Step := digits cs (afterWhole negative)

theorem length_afterWhole_le (negative : Bool) (whole rest : List Char) :
    (afterWhole negative whole rest).2.length ≤ rest.length := by
  unfold afterWhole
  split
  · exact Nat.zero_le _
  · exact length_fractionStep_le fun _ _ => length_exponentStep_le fun _ _ => Nat.le_refl _

/-! ## Strings -/

/-- Four hexadecimal digits. -/
def fourHex (cs : List Char) : Except Flaw (Nat × List Char) :=
  let ds := cs.take 4
  if ds.foldl (fun n d => n + d.utf8Size) 0 < 4 then .error .cutShort
  else if ds.all CssPruning.Token.isHexDigit then
    .ok (ds.foldl (fun n d => 16 * n + CssPruning.Token.hexValue d) 0, cs.drop 4)
  else .error .malformed

/-- The character of a short escape. -/
def shortEscape (c : Char) : Option Char :=
  match c with
  | '"' => some '"'
  | '\\' => some '\\'
  | '/' => some '/'
  | 'b' => some '\x08'
  | 'f' => some '\x0c'
  | 'n' => some '\n'
  | 'r' => some '\r'
  | 't' => some '\t'
  | _ => none

/-- What a code escape stands for: a character, half of a pair, or half of a pair
at the end of the text. -/
inductive Escaped where
  | char (c : Char)
  | half
  | cut

/-- A code escape after its `u`, and the second half of a pair behind it. -/
def codeEscape (cs : List Char) : Except Flaw (Escaped × List Char) := do
  let (n, rest) ← fourHex cs
  if n < 0xD800 || 0xDFFF < n then return (.char (Char.ofNat n), rest)
  if 0xDC00 ≤ n then return (.half, rest)
  match rest with
  | '\\' :: 'u' :: more =>
    let (m, rest) ← fourHex more
    if m < 0xDC00 || 0xDFFF < m then return (.half, rest)
    return (.char (Char.ofNat (0x10000 + (n - 0xD800) * 0x400 + (m - 0xDC00))), rest)
  | [] | ['\\'] => return (.cut, rest)
  | _ => return (.half, rest)

/-- A fault inside a string that may have lost its value before. -/
def stringFault (whole : Bool) (f : Flaw) : Step :=
  let wanted := if whole then f else .malformed
  (.fault true ⟨wanted, wanted, f⟩, [])

theorem length_fourHex_lt {cs rest : List Char} {n : Nat} (h : fourHex cs = .ok (n, rest)) :
    rest.length ≤ cs.length := by
  simp only [fourHex] at h
  split at h
  · cases h
  · split at h
    · cases h
      simp
    · cases h

theorem length_codeEscape_le {cs rest : List Char} {e : Escaped}
    (h : codeEscape cs = .ok (e, rest)) : rest.length ≤ cs.length := by
  simp only [codeEscape, bind, Except.bind] at h
  split at h
  · cases h
  · rename_i p hp
    obtain ⟨n, r⟩ := p
    have h1 := length_fourHex_lt hp
    dsimp only at h
    split at h
    · cases h
      exact h1
    · split at h
      · cases h
        exact h1
      · split at h
        · rename_i more
          split at h
          · cases h
          · rename_i q hq
            obtain ⟨m, r2⟩ := q
            have h2 := length_fourHex_lt hq
            simp only [List.length_cons] at h1
            dsimp only at h
            split at h <;> cases h <;> omega
        · cases h
          exact h1
        · cases h
          exact h1
        · cases h
          exact h1

/-- A string after its opening quote, behind the characters read so far, last
first; `whole` until half of a pair is met. -/
def stringRest (whole : Bool) (done : List Char) (cs : List Char) : Step :=
  match cs with
  | [] => stringFault whole .cutShort
  | '"' :: cs => (.string (if whole then some (String.ofList done.reverse) else none), cs)
  | ['\\'] => stringFault whole .cutShort
  | '\\' :: 'u' :: cs =>
    match h : codeEscape cs with
    | .error f => stringFault whole f
    | .ok (.char c, rest) =>
      have := length_codeEscape_le h
      stringRest whole (c :: done) rest
    | .ok (.half, rest) =>
      have := length_codeEscape_le h
      stringRest false done rest
    | .ok (.cut, rest) =>
      have := length_codeEscape_le h
      stringRest whole done rest
  | '\\' :: c :: cs =>
    match shortEscape c with
    | some d => stringRest whole (d :: done) cs
    | none => stringFault whole .malformed
  | c :: cs =>
    if c.toNat < 0x20 then stringFault whole .malformed else stringRest whole (c :: done) cs
termination_by cs.length
decreasing_by all_goals (simp only [List.length_cons]; omega)

theorem length_stringRest_le (whole : Bool) (done cs : List Char) :
    (stringRest whole done cs).2.length ≤ cs.length := by
  fun_induction stringRest whole done cs <;> simp_all [stringFault] <;> omega

/-! ## All tokens -/

/-- A blank of JSON text. -/
def isSpace (c : Char) : Bool := c == ' ' || c == '\t' || c == '\n' || c == '\r'

/-- The token that starts with a character that is not a blank. -/
def next (c : Char) (cs : List Char) : Step :=
  match c with
  | '[' => (.openArray, cs)
  | ']' => (.closeArray, cs)
  | '\x7b' => (.openObject, cs)
  | '\x7d' => (.closeObject, cs)
  | ',' => (.comma, cs)
  | ':' => (.colon, cs)
  | '"' => stringRest true [] cs
  | '-' => number true cs
  | 'n' => word .null ['u', 'l', 'l'] cs
  | 't' => word (.bool true) ['r', 'u', 'e'] cs
  | 'f' => word (.bool false) ['a', 'l', 's', 'e'] cs
  | c => if c.isDigit then number false (c :: cs) else stop .malformed

theorem length_next_le (c : Char) (cs : List Char) : (next c cs).2.length ≤ cs.length := by
  fun_cases next c cs with
  | case7 => exact length_stringRest_le _ _ _
  | case8 => exact length_digits_le (length_afterWhole_le _)
  | case9 => exact length_word_le _ _ _
  | case10 => exact length_word_le _ _ _
  | case11 => exact length_word_le _ _ _
  | case12 => exact length_digits_cons_le (by assumption) (length_afterWhole_le _)
  | case13 => exact Nat.zero_le _
  | _ => exact Nat.le_refl _

/-- The tokens of a text, up to the first fault. -/
def list : List Char → List Token
  | [] => []
  | c :: cs =>
    if isSpace c then list cs
    else
      have := length_next_le c cs
      (next c cs).1 :: list (next c cs).2
termination_by cs => cs.length
decreasing_by all_goals grind

end Token

end CssPruning.Json
