import Mathlib.Algebra.GroupWithZero.Nat
import Mathlib.Algebra.Order.Group.Nat
import Mathlib.Algebra.Order.Monoid.Prod
import CssPruning.Proofs.Token.Decoding
import CssPruning.Value.Writer

/-!
# The weight of a text

Texts are weighed so that no text weighs more than what it was decoded from
(`Decodes.weight_le`), even if it is written as a string (`Decodes.weight_escaped_le`).
Backslashes and quotes, which are put in there, and the replacement character, which is
put in the place of another one, add to the length of a text and not to its mass, and
mass counts first.
-/

set_option autoImplicit false

namespace CssPruning

namespace Token

/-! ## Weights -/

/-- The characters that count for the mass of a text: all but those that writing may put
in or put in the place of another one. -/
def isHeavy (c : Char) : Bool := c != '\\' && c != '"' && c != replacement

/-- The number of heavy characters. -/
def mass (cs : List Char) : ℕ := cs.countP isHeavy

/-- The weight of a text: its mass first, and then its length. -/
def weight (cs : List Char) : ℕ ×ₗ ℕ := toLex (mass cs, cs.length)

theorem weight_le_iff {cs ds : List Char} : weight cs ≤ weight ds ↔
    mass cs < mass ds ∨ mass cs = mass ds ∧ cs.length ≤ ds.length := Prod.Lex.toLex_le_toLex

theorem weight_lt_of_mass_lt {cs ds : List Char} (h : mass cs < mass ds) :
    weight cs < weight ds := Prod.Lex.toLex_lt_toLex.2 (.inl h)

theorem length_eq_of_weight_eq {cs ds : List Char} (h : weight cs = weight ds) :
    cs.length = ds.length := (Prod.mk.inj (toLex_inj.1 h)).2

theorem mass_append (cs ds : List Char) : mass (cs ++ ds) = mass cs + mass ds :=
  List.countP_append

theorem weight_append (cs ds : List Char) : weight (cs ++ ds) = weight cs + weight ds := by
  rw [weight, mass_append, List.length_append]
  rfl

theorem weight_cons (c : Char) (cs : List Char) : weight (c :: cs) = weight [c] + weight cs :=
  weight_append [c] cs

/-- A text is no lighter than a part of it. -/
theorem weight_le_of_sublist {cs ds : List Char} (h : cs.Sublist ds) : weight cs ≤ weight ds := by
  have hmass : mass cs ≤ mass ds := h.countP_le
  have hlength := h.length_le
  rw [weight_le_iff]
  omega

theorem weight_nonneg (cs : List Char) : 0 ≤ weight cs := weight_le_of_sublist (List.nil_sublist cs)

theorem weight_pos {cs : List Char} (h : cs ≠ []) : 0 < weight cs := by
  refine lt_of_le_of_ne (weight_nonneg cs) fun heq => h ?_
  have hlength : ([] : List Char).length = cs.length := length_eq_of_weight_eq heq
  exact List.length_eq_zero_iff.1 hlength.symm

/-- A shorter text with at most one heavy character is no heavier than a text with one. -/
theorem weight_le_of_mem {cs ds : List Char} {d : Char} (hd : d ∈ ds) (hheavy : isHeavy d = true)
    (hmass : mass cs ≤ 1) (hlength : cs.length ≤ ds.length) : weight cs ≤ weight ds := by
  have hpos : 0 < mass ds := List.countP_pos_iff.2 ⟨d, hd, hheavy⟩
  rw [weight_le_iff]
  omega

theorem weight_le_of_forall_heavy {cs ds : List Char} (hheavy : ∀ d ∈ ds, isHeavy d = true)
    (hlength : cs.length ≤ ds.length) : weight cs ≤ weight ds := by
  have hmass : mass ds = ds.length := List.countP_eq_length.2 hheavy
  have hle : mass cs ≤ cs.length := List.countP_le_length
  rw [weight_le_iff]
  omega

theorem isHeavy_eq_false_iff {c : Char} :
    isHeavy c = false ↔ c = '\\' ∨ c = '"' ∨ c = replacement := by
  simp [isHeavy, or_iff_not_imp_left]

theorem isHeavy_of_isHexDigit {c : Char} (h : isHexDigit c = true) : isHeavy c = true := by
  rw [← Bool.not_eq_false, isHeavy_eq_false_iff]
  rintro (rfl | rfl | rfl) <;> cases h

theorem isHeavy_of_isSpace {c : Char} (h : isSpace c = true) : isHeavy c = true := by
  rcases eq_of_isSpace h with rfl | rfl | rfl | rfl | rfl <;> rfl

/-! ## Strings -/

theorem mass_escaped (c : Char) : mass (Component.escaped c) = mass [c] := by
  rw [Component.escaped]
  split
  · rfl
  · rfl

theorem mass_flatMap_escaped (text : List Char) :
    mass (text.flatMap Component.escaped) = mass text := by
  induction text with
  | nil => rfl
  | cons c text ih =>
    rw [List.flatMap_cons, mass_append, mass_escaped, ih, ← mass_append]
    rfl

theorem singleton_sublist_escaped (c : Char) : [c].Sublist (Component.escaped c) := by
  rw [Component.escaped]
  split
  · exact List.sublist_cons_self _ _
  · exact List.Sublist.refl _

theorem escaped_sublist (c : Char) : (Component.escaped c).Sublist ['\\', c] := by
  rw [Component.escaped]
  split
  · exact List.Sublist.refl _
  · exact List.sublist_cons_self _ _

theorem sublist_flatMap_escaped (text : List Char) :
    text.Sublist (text.flatMap Component.escaped) := by
  induction text with
  | nil => exact List.Sublist.slnil
  | cons c text ih => exact (singleton_sublist_escaped c).append ih

/-! ## What texts are decoded from -/

/-- The first character of a hexadecimal escape is a digit. -/
theorem mem_source_escape {c : Char} (h : isHexDigit c = true) (cs : List Char) :
    c ∈ (escape (c :: cs)).source := by
  rw [escape, if_pos h]
  simp [h]

/-- A character weighs no more than the escape that it was decoded from, even if it is
written with a backslash. -/
theorem weight_escaped_escape_le (cs : List Char) :
    weight (Component.escaped (escape cs).value) ≤ weight ('\\' :: (escape cs).source) := by
  cases cs with
  | nil => decide
  | cons c cs =>
    cases hc : isHexDigit c with
    | true =>
      have hmem := mem_source_escape hc cs
      have hpos := List.length_pos_of_mem hmem
      have hlength := (escaped_sublist (escape (c :: cs)).value).length_le
      refine weight_le_of_mem (List.mem_cons_of_mem _ hmem) (isHeavy_of_isHexDigit hc) ?_ ?_
      · rw [mass_escaped]
        exact List.countP_le_length
      · simp only [List.length_cons, List.length_nil] at hlength ⊢
        omega
    | false =>
      rw [escape, if_neg (by simp [hc])]
      by_cases hnul : c = '\x00'
      · rw [hnul]
        exact (by decide : weight (Component.escaped replacement) ≤ weight ['\\', '\x00'])
      · rw [withoutNul_of_ne hnul]
        exact weight_le_of_sublist (escaped_sublist c)

theorem weight_escape_le (cs : List Char) :
    weight [(escape cs).value] ≤ weight ('\\' :: (escape cs).source) :=
  (weight_le_of_sublist (singleton_sublist_escaped _)).trans (weight_escaped_escape_le cs)

theorem weight_withoutNul_le (c : Char) : weight [withoutNul c] ≤ weight [c] := by
  by_cases hnul : c = '\x00'
  · rw [hnul]
    decide
  · rw [withoutNul_of_ne hnul]

/-- A character that stands for itself in a string is written without a backslash. -/
theorem escaped_withoutNul {c : Char} (hquote : c ≠ '"') (hback : c ≠ '\\') :
    Component.escaped (withoutNul c) = [withoutNul c] := by
  by_cases hnul : c = '\x00'
  · rw [hnul]
    rfl
  · rw [withoutNul_of_ne hnul, Component.escaped, if_neg (by simp [hquote, hback])]

namespace Decodes

variable {closing : Char} {cs text : List Char}

/-- A text weighs no more than what it was decoded from. -/
theorem weight_le (h : Decodes closing cs text) : weight text ≤ weight cs := by
  induction h with
  | nil => exact le_rfl
  | @char c cs text _ _ _ ih =>
    rw [weight_cons _ text, weight_cons _ cs]
    exact add_le_add (weight_withoutNul_le c) ih
  | @escape cs ds text _ ih =>
    rw [weight_cons _ text, ← List.cons_append, weight_append]
    exact add_le_add (weight_escape_le cs) ih
  | gap _ _ ih => exact ih.trans (weight_le_of_sublist ((List.sublist_append_right _ _).cons _))

theorem mass_le (h : Decodes closing cs text) : mass text ≤ mass cs := by
  have := weight_le_iff.1 h.weight_le
  omega

/-- The text of a string weighs no more in double quotes than it did there before. -/
theorem weight_escaped_le (h : Decodes '"' cs text) :
    weight (text.flatMap Component.escaped) ≤ weight cs := by
  induction h with
  | nil => exact le_rfl
  | @char c cs text hquote hback _ ih =>
    rw [List.flatMap_cons, escaped_withoutNul hquote hback, weight_append, weight_cons _ cs]
    exact add_le_add (weight_withoutNul_le c) ih
  | @escape cs ds text _ ih =>
    rw [List.flatMap_cons, weight_append, ← List.cons_append, weight_append]
    exact add_le_add (weight_escaped_escape_le cs) ih
  | gap _ _ ih => exact ih.trans (weight_le_of_sublist ((List.sublist_append_right _ _).cons _))

end Decodes

/-! ## Closing characters at the end -/

/-- A hexadecimal escape consists of digits and blanks. -/
theorem isHexDigit_or_isSpace_of_mem_escape {c d : Char} {cs : List Char}
    (h : isHexDigit c = true) (hd : d ∈ (escape (c :: cs)).source) :
    isHexDigit d = true ∨ isSpace d = true := by
  rw [escape, if_pos h, List.mem_append] at hd
  rcases hd with hd | hd
  · exact .inl (List.all_eq_true.1 List.all_takeWhile d hd)
  · exact .inr (isSpace_of_mem_oneSpace _ d hd)

/-- An escape that ends with a closing character is the escape of that character. -/
theorem escape_of_getLast? {closing : Char} (hclosing : closing = '"' ∨ closing = ')')
    {cs : List Char} (h : ('\\' :: (escape cs).source).getLast? = some closing) :
    (escape cs).source = [closing] ∧ (escape cs).value = closing := by
  cases cs with
  | nil => rcases hclosing with rfl | rfl <;> cases h
  | cons c cs =>
    cases hc : isHexDigit c with
    | true =>
      have hmem := List.mem_of_mem_getLast? h
      rcases List.mem_cons.1 hmem with hback | hmem
      · rcases hclosing with rfl | rfl <;> cases hback
      · have hkind := isHexDigit_or_isSpace_of_mem_escape hc hmem
        rcases hclosing with rfl | rfl <;> rcases hkind with hkind | hkind <;> cases hkind
    | false =>
      rw [escape, if_neg (by simp [hc])] at h ⊢
      obtain rfl : c = closing := by simpa using h
      exact ⟨rfl, by rcases hclosing with rfl | rfl <;> rfl⟩

/-- A closing character at the end stands behind a backslash, and for itself. -/
theorem Decodes.eq_concat_of_getLast? {closing : Char} {cs text : List Char}
    (hclosing : closing = '"' ∨ closing = ')') (h : Decodes closing cs text)
    (hlast : cs.getLast? = some closing) :
    (∃ front, cs = front ++ ['\\', closing]) ∧ text.getLast? = some closing := by
  induction h with
  | nil => cases hlast
  | @char c cs text hc _ _ ih =>
    cases hcs : cs.getLast? with
    | none =>
      rw [List.getLast?_cons, hcs] at hlast
      exact absurd (Option.some.inj hlast) hc
    | some d =>
      rw [List.getLast?_cons, hcs] at hlast
      obtain ⟨⟨front, hfront⟩, htext⟩ := ih (hcs.trans hlast)
      exact ⟨⟨c :: front, congrArg (c :: ·) hfront⟩, by rw [List.getLast?_cons, htext]; rfl⟩
  | @escape cs ds text htext ih =>
    rw [← List.cons_append, List.getLast?_append] at hlast
    cases hds : ds.getLast? with
    | none =>
      obtain rfl := List.getLast?_eq_none_iff.1 hds
      cases htext
      obtain ⟨hsource, hvalue⟩ := escape_of_getLast? hclosing hlast
      rw [hsource, hvalue]
      exact ⟨⟨[], rfl⟩, rfl⟩
    | some d =>
      rw [hds] at hlast
      obtain ⟨⟨front, hfront⟩, htext⟩ := ih (hds.trans hlast)
      refine ⟨⟨'\\' :: ((Token.escape cs).source ++ front), by simp [hfront]⟩, ?_⟩
      rw [List.getLast?_cons, htext]
      rfl
  | @gap gap cs text hgap _ ih =>
    rw [← List.cons_append, List.getLast?_append] at hlast
    cases hcs : cs.getLast? with
    | none =>
      rw [hcs] at hlast
      rcases List.mem_cons.1 (List.mem_of_mem_getLast? hlast) with hback | hmem
      · rcases hclosing with rfl | rfl <;> cases hback
      · have hspace := hgap _ hmem
        rcases hclosing with rfl | rfl <;> cases hspace
    | some d =>
      rw [hcs] at hlast
      obtain ⟨⟨front, hfront⟩, htext⟩ := ih (hcs.trans hlast)
      exact ⟨⟨'\\' :: (gap ++ front), by simp [hfront]⟩, htext⟩

end Token

end CssPruning
