import CssPruning.Json.Token
import Mathlib.Data.List.Basic

/-!
# Tokens of written JSON

A string is read from its text whatever stands behind it (`stringRest_flatMap`).  The text
of a number goes on for as long as it can, and so it is read the same way in front of a text
only if that text does not go on with it; what stands behind a value in an array or an object
never does (`Delimited`, `list_append_of_scalar`).
-/

set_option autoImplicit false

namespace CssPruning.Json.Token

/-! ## Strings -/

theorem fourHex_append {cs : List Char} (hlength : cs.length = 4) {n : Nat}
    (h : fourHex cs = .ok (n, [])) (rest : List Char) : fourHex (cs ++ rest) = .ok (n, rest) := by
  have htake : (cs ++ rest).take 4 = cs := by rw [← hlength, List.take_left]
  have hdrop : (cs ++ rest).drop 4 = rest := by rw [← hlength, List.drop_left]
  unfold fourHex at h ⊢
  rw [List.take_of_length_le (Nat.le_of_eq hlength)] at h
  rw [htake, hdrop]
  dsimp only at h ⊢
  split at h
  · cases h
  · rename_i hbytes
    rw [if_neg hbytes]
    split at h
    · rename_i hhex
      rw [if_pos hhex, ← (Prod.mk.inj (Except.ok.inj h)).1]
    · cases h

/-- The code of a control character is read from its four digits. -/
theorem codeEscape_fourDigits {c : Char} (h : c.toNat < 0x20) (rest : List Char) :
    codeEscape (fourDigits c.toNat ++ rest) = .ok (.char c, rest) := by
  have hdigits : ∀ n < 0x20, (fourDigits n).length = 4 ∧ fourHex (fourDigits n) = .ok (n, []) := by
    decide
  obtain ⟨hlength, hhex⟩ := hdigits _ h
  have hlow : (c.toNat < 0xD800 || 0xDFFF < c.toNat) = true := by
    rw [Bool.or_eq_true, decide_eq_true_iff, decide_eq_true_iff]
    omega
  rw [codeEscape, fourHex_append hlength hhex]
  change (if (c.toNat < 0xD800 || 0xDFFF < c.toNat) = true then
    Except.ok (Escaped.char (Char.ofNat c.toNat), rest) else _) = _
  rw [if_pos hlow, Char.ofNat_toNat]

/-- A character is read from its text inside a string. -/
theorem stringRest_stringChar (whole : Bool) (done : List Char) (c : Char) (rest : List Char) :
    stringRest whole done (stringChar c ++ rest) = stringRest whole (c :: done) rest := by
  fun_cases stringChar c with
  | case8 _ _ _ _ _ _ _ hcontrol =>
    have hcode := codeEscape_fourDigits hcontrol rest
    rw [List.cons_append, List.cons_append, stringRest]
    split
    · rename_i h
      rw [hcode] at h
      cases h
    · rename_i h
      rw [hcode] at h
      cases h
      rfl
    · rename_i h
      rw [hcode] at h
      cases h
    · rename_i h
      rw [hcode] at h
      cases h
  | case9 hquote hbackslash _ _ _ _ _ hcontrol =>
    simp only [List.singleton_append]
    have hquote : c ≠ '"' := by simpa using hquote
    have hbackslash : c ≠ '\\' := by simpa using hbackslash
    rw [stringRest, if_neg hcontrol] <;> simp [hquote, hbackslash]
  | case1 h | case2 _ h | case3 _ _ h | case4 _ _ _ h | case5 _ _ _ _ h | case6 _ _ _ _ _ h
  | case7 _ _ _ _ _ _ h =>
    rw [eq_of_beq h]
    simp [stringRest, shortEscape]

/-- A string is read from its text. -/
theorem stringRest_flatMap (done cs rest : List Char) :
    stringRest true done (cs.flatMap stringChar ++ '"' :: rest) =
      (.string (some (String.ofList (done.reverse ++ cs))), rest) := by
  induction cs generalizing done with
  | nil => rw [List.flatMap_nil, List.nil_append, stringRest, List.append_nil]; rfl
  | cons c cs ih =>
    rw [List.flatMap_cons, List.append_assoc, stringRest_stringChar, ih, List.reverse_cons,
      List.append_assoc, List.singleton_append]

/-- A string never ends as another kind of value. -/
theorem stringRest_ne_scalar (whole : Bool) (done cs : List Char) (v : Option Json) :
    (stringRest whole done cs).1 ≠ .scalar v := by
  fun_induction stringRest whole done cs with
  | case5 | case6 | case7 | case8 | case11 => assumption
  | _ => exact Token.noConfusion

/-! ## Texts behind a value -/

/-- The text begins with what stands behind a value in an array or an object, or is at its end. -/
def Delimited (rest : List Char) : Prop := ∀ c ∈ rest.head?, c = ',' ∨ c = ']' ∨ c = '\x7d'

/-- The step is a fault, or goes the same way in front of more text. -/
def Extends (rest : List Char) (s t : Step) : Prop :=
  (∃ inString stop, s.1 = .fault inString stop) ∨ t = (s.1, s.2 ++ rest)

theorem extends_stop (rest : List Char) (f : Flaw) (t : Step) : Extends rest (stop f) t :=
  .inl ⟨_, _, rfl⟩

theorem extends_word (value : Json) (ws cs rest : List Char) :
    Extends rest (word value ws cs) (word value ws (cs ++ rest)) := by
  fun_induction word value ws cs with
  | case1 cs => exact .inr rfl
  | case2 => exact extends_stop ..
  | case3 w ws c cs h ih => rwa [List.cons_append, word, if_pos h]
  | case4 w ws c cs h => exact extends_stop ..

/-- Nothing but blanks has no token. -/
theorem list_append_of_nil {cs : List Char} (h : list cs = []) (rest : List Char) :
    list (cs ++ rest) = list rest := by
  fun_induction list cs with
  | case1 => rfl
  | case2 c cs hspace ih => rw [List.cons_append, list, if_pos hspace, ih h]
  | case3 => cases h

section

variable {rest : List Char} (hrest : Delimited rest)
include hrest

theorem takeWhile_isDigit_append (cs : List Char) :
    (cs ++ rest).takeWhile Char.isDigit = cs.takeWhile Char.isDigit ∧
      (cs ++ rest).dropWhile Char.isDigit = cs.dropWhile Char.isDigit ++ rest := by
  induction cs with
  | nil =>
    cases rest with
    | nil => exact ⟨rfl, rfl⟩
    | cons c rest =>
      have hc : c.isDigit = false := by
        rcases hrest c rfl with rfl | rfl | rfl <;> rfl
      simp [hc]
  | cons c cs ih =>
    cases hc : c.isDigit with
    | false => simp [hc]
    | true => simpa [hc] using ih

theorem extends_digits {k : List Char → List Char → Step}
    (hk : ∀ ds r, Extends rest (k ds r) (k ds (r ++ rest))) (cs : List Char) :
    Extends rest (digits cs k) (digits (cs ++ rest) k) := by
  obtain ⟨htake, hdrop⟩ := takeWhile_isDigit_append hrest cs
  unfold digits
  rw [htake, hdrop]
  dsimp only
  split
  · exact .inl ⟨_, _, rfl⟩
  · exact hk _ _

theorem splitSign_append (cs : List Char) : Decimal.splitSign (cs ++ rest) =
    ((Decimal.splitSign cs).1, (Decimal.splitSign cs).2 ++ rest) := by
  cases cs with
  | nil =>
    cases rest with
    | nil => rfl
    | cons c rest => rcases hrest c rfl with rfl | rfl | rfl <;> rfl
  | cons c cs =>
    by_cases hminus : c = '-'
    · rw [hminus]
      rfl
    · by_cases hplus : c = '+'
      · rw [hplus]
        rfl
      · rw [List.cons_append, Decimal.splitSign, Decimal.splitSign] <;> simp [hminus, hplus]

theorem extends_exponentStep {k : Option Int → List Char → Step}
    (hk : ∀ e r, Extends rest (k e r) (k e (r ++ rest))) (cs : List Char) :
    Extends rest (exponentStep cs k) (exponentStep (cs ++ rest) k) := by
  cases cs with
  | nil =>
    have hnone : exponentStep rest k = k none rest := by
      cases rest with
      | nil => rfl
      | cons c rest => rcases hrest c rfl with rfl | rfl | rfl <;> rfl
    rw [List.nil_append, hnone]
    exact hk none []
  | cons e r =>
    rw [List.cons_append, exponentStep, exponentStep]
    split
    · rw [splitSign_append hrest]
      exact extends_digits hrest (fun ds => hk (some _)) (Decimal.splitSign r).2
    · exact hk none (e :: r)

theorem extends_fractionStep {k : Option (List Char) → List Char → Step}
    (hk : ∀ ds r, Extends rest (k ds r) (k ds (r ++ rest))) (cs : List Char) :
    Extends rest (fractionStep cs k) (fractionStep (cs ++ rest) k) := by
  cases cs with
  | nil =>
    have hnone : fractionStep rest k = k none rest := by
      cases rest with
      | nil => rfl
      | cons c rest => rcases hrest c rfl with rfl | rfl | rfl <;> rfl
    rw [List.nil_append, hnone]
    exact hk none []
  | cons c r =>
    rw [List.cons_append]
    by_cases hc : c = '.'
    · rw [hc]
      exact extends_digits hrest (fun ds => hk (some ds)) r
    · have hnone : ∀ r, fractionStep (c :: r) k = k none (c :: r) := by
        intro r
        rw [fractionStep]
        simp [hc]
      rw [hnone, hnone]
      exact hk none (c :: r)

theorem extends_afterWhole (negative : Bool) (whole cs : List Char) :
    Extends rest (afterWhole negative whole cs) (afterWhole negative whole (cs ++ rest)) := by
  unfold afterWhole
  split
  · exact extends_stop ..
  · refine extends_fractionStep hrest (fun fraction r => ?_) cs
    exact extends_exponentStep hrest (fun exponent r => .inr rfl) r

/-- A number or a word is read the same way in front of what stands behind a value. -/
theorem next_append_of_scalar {c : Char} {cs : List Char} {v : Option Json}
    (h : (next c cs).1 = .scalar v) :
    next c (cs ++ rest) = (.scalar v, (next c cs).2 ++ rest) := by
  have key : ∀ {s t : Step}, Extends rest s t → s.1 = .scalar v → t = (.scalar v, s.2 ++ rest) := by
    rintro s t (⟨inString, stop, hfault⟩ | rfl) hscalar
    · rw [hscalar] at hfault
      cases hfault
    · rw [hscalar]
  revert h
  fun_cases next c cs with
  | case7 => exact fun h => absurd h (stringRest_ne_scalar true [] cs v)
  | case8 => exact key (extends_digits hrest (extends_afterWhole hrest true) cs)
  | case9 | case10 | case11 => exact key (extends_word ..)
  | case12 =>
    rename_i hdigit
    have hnext : ∀ ds, next c ds = number false (c :: ds) := by
      intro ds
      rw [next, if_pos hdigit] <;> assumption
    rw [hnext]
    exact key (extends_digits hrest (extends_afterWhole hrest false) (c :: cs))
  | _ => rintro ⟨⟩

/-- A text that is one number or one word is read the same way in front of what stands behind a
value. -/
theorem list_append_of_scalar {cs : List Char} {v : Option Json} (h : list cs = [.scalar v]) :
    list (cs ++ rest) = .scalar v :: list rest := by
  fun_induction list cs with
  | case1 => cases h
  | case2 c cs hspace ih => rw [List.cons_append, list, if_pos hspace, ih h]
  | case3 c cs hspace _ _ =>
    obtain ⟨hnext, hlist⟩ := List.cons.inj h
    rw [List.cons_append, list, if_neg hspace, next_append_of_scalar hrest hnext,
      list_append_of_nil hlist]

end

end CssPruning.Json.Token
