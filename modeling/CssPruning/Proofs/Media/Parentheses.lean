import CssPruning.Proofs.Media.Words
import CssPruning.Proofs.Text.FirstPlace

/-!
# Parentheses of media queries

The conditions of a query are the parentheses of a text, each up to its first
closing parenthesis, and nothing is asked of the text that stands between them.  So a
text is taken for conditions if it is put together from parentheses that hold one and
from other text in which no parenthesis is closed but an empty one (`row_iff`).
-/

set_option autoImplicit false

namespace CssPruning.Media

open Text

/-! ## What stands between parentheses -/

/-- No parenthesis is opened in the text but such as are closed at once. -/
inductive Gap : List Char → Prop where
  | nil : Gap []
  | char {c : Char} {cs : List Char} : c ≠ '(' → Gap cs → Gap (c :: cs)
  | empty {cs : List Char} : Gap cs → Gap ('(' :: ')' :: cs)

/-- A gap, or one with a parenthesis behind it that is not closed any more. -/
def Trailing (cs : List Char) : Prop :=
  Gap cs ∨ ∃ gap inner, cs = gap ++ '(' :: inner ∧ Gap gap ∧ ')' ∉ inner

/-- What can stand inside of a parenthesis that counts. -/
def Closed (inner : List Char) : Prop := inner ≠ [] ∧ ')' ∉ inner

/-- A text in parentheses. -/
def enclosed (inner : List Char) : List Char := '(' :: (inner ++ [')'])

theorem gap_of_not_mem {cs : List Char} (h : '(' ∉ cs) : Gap cs := by
  induction cs with
  | nil => exact .nil
  | cons c cs ih =>
    rw [List.mem_cons, not_or] at h
    exact .char (Ne.symm h.1) (ih h.2)

/-- A text ends without a parenthesis that counts, or goes on behind the first one. -/
theorem trailing_or_exists_enclosed (cs : List Char) :
    Trailing cs ∨ ∃ gap inner rest, cs = gap ++ (enclosed inner ++ rest) ∧ Gap gap ∧
      Closed inner := by
  match cs with
  | [] => exact .inl (.inl .nil)
  | c :: cs =>
    by_cases hc : c = '('
    case neg =>
      rcases trailing_or_exists_enclosed cs with (h | ⟨gap, inner, rfl, h⟩) | ⟨gap, inner, rest, rfl, hgap, h⟩
      · exact .inl (.inl (.char hc h))
      · exact .inl (.inr ⟨c :: gap, inner, rfl, .char hc h.1, h.2⟩)
      · exact .inr ⟨c :: gap, inner, rest, rfl, .char hc hgap, h⟩
    case pos =>
      subst hc
      by_cases hclosing : ')' ∈ cs
      case neg => exact .inl (.inr ⟨[], cs, rfl, .nil, hclosing⟩)
      case pos =>
        obtain ⟨inner, rest, rfl, hinner⟩ := List.eq_append_cons_of_mem hclosing
        cases inner with
        | cons d inner =>
          exact .inr ⟨[], d :: inner, rest, by simp [enclosed], .nil, List.cons_ne_nil _ _, hinner⟩
        | nil =>
          rcases trailing_or_exists_enclosed rest with
            (h | ⟨gap, inner, rfl, h⟩) | ⟨gap, inner, rest, rfl, hgap, h⟩
          · exact .inl (.inl (.empty h))
          · exact .inl (.inr ⟨'(' :: ')' :: gap, inner, rfl, .empty h.1, h.2⟩)
          · exact .inr ⟨'(' :: ')' :: gap, inner, rest, rfl, .empty hgap, h⟩
termination_by cs.length

/-! ## The parentheses of a text -/

theorem parentheses_gap_append {gap : List Char} (h : Gap gap) (cs : List Char) :
    parentheses none (gap ++ cs) = parentheses none cs := by
  induction h with
  | nil => rfl
  | char hc _ ih => simpa [parentheses, hc] using ih
  | empty _ ih => simpa [parentheses] using ih

/-- The open parenthesis goes up to the first closing one. -/
theorem parentheses_some_append {opened inner : List Char} (h : ')' ∉ inner)
    (hne : opened.reverse ++ inner ≠ []) (cs : List Char) :
    parentheses (some opened) (inner ++ ')' :: cs) =
      (opened.reverse ++ inner) :: parentheses none cs := by
  induction inner generalizing opened with
  | nil =>
    rw [List.append_nil] at hne ⊢
    have hopened : opened.isEmpty = false := by
      rw [List.isEmpty_eq_false_iff]
      rintro rfl
      exact hne rfl
    simp [parentheses, hopened]
  | cons c inner ih =>
    rw [List.mem_cons, not_or] at h
    have hc : (c == ')') = false := by simpa using Ne.symm h.1
    rw [List.cons_append, parentheses, hc]
    have hmore : (c :: opened).reverse ++ inner = opened.reverse ++ c :: inner := by simp
    rw [← hmore]
    exact ih h.2 (by rw [hmore]; exact hne)

theorem parentheses_enclosed_append {inner : List Char} (h : Closed inner) (cs : List Char) :
    parentheses none (enclosed inner ++ cs) = inner :: parentheses none cs := by
  have hopen : parentheses none (enclosed inner ++ cs) =
      parentheses (some []) (inner ++ ')' :: cs) := by
    rw [enclosed, List.cons_append, List.append_assoc, parentheses]
    rfl
  rw [hopen, parentheses_some_append h.2 (by simpa using h.1)]
  rfl

/-- What closes no parenthesis adds none. -/
theorem parentheses_append_of_not_mem {behind : List Char} (h : ')' ∉ behind)
    (opened : Option (List Char)) (cs : List Char) :
    parentheses opened (cs ++ behind) = parentheses opened cs := by
  induction cs generalizing opened with
  | nil =>
    induction behind generalizing opened with
    | nil => rfl
    | cons c behind ih =>
      rw [List.mem_cons, not_or] at h
      have hc : (c == ')') = false := by simpa using Ne.symm h.1
      rw [List.nil_append] at ih ⊢
      cases opened with
      | none => exact ih h.2 _
      | some inner =>
        have hstep : parentheses (some inner) (c :: behind) =
            parentheses (some (c :: inner)) behind := by
          rw [parentheses, hc]
          rfl
        rw [hstep]
        exact ih h.2 _
  | cons c cs ih =>
    cases opened with
    | none => exact ih _
    | some inner =>
      rw [List.cons_append, parentheses, parentheses]
      simp only [ih]

theorem parentheses_trailing {cs : List Char} (h : Trailing cs) : parentheses none cs = [] := by
  rcases h with h | ⟨gap, inner, rfl, hgap, hinner⟩
  · rw [← List.append_nil cs, parentheses_gap_append h]
    rfl
  · rw [parentheses_gap_append hgap]
    have hopen : parentheses none ('(' :: inner) = parentheses (some []) ([] ++ inner) := rfl
    rw [hopen, parentheses_append_of_not_mem hinner]
    rfl

/-- Blanks at the ends are in no parenthesis. -/
theorem parentheses_trim (cs : List Char) : parentheses none (trim cs) = parentheses none cs := by
  have hblanks : ∀ bs, Blanks bs → '(' ∉ bs ∧ ')' ∉ bs := by
    intro bs hbs
    exact ⟨fun h => absurd (hbs _ h) (by decide), fun h => absurd (hbs _ h) (by decide)⟩
  obtain ⟨front, hfront, hcs⟩ := exists_blanks_trimStart cs
  obtain ⟨behind, hbehind, hstart⟩ : ∃ behind, Blanks behind ∧ trimStart cs = trim cs ++ behind := by
    refine ⟨((trimStart cs).reverse.takeWhile isBlank).reverse, ?_, ?_⟩
    · intro c hc
      exact List.mem_takeWhile_imp (List.mem_reverse.1 hc)
    · rw [trim, trimEnd, ← List.reverse_append, List.takeWhile_append_dropWhile,
        List.reverse_reverse]
  have hleft : parentheses none cs = parentheses none (trimStart cs) := by
    conv => lhs; rw [hcs]
    exact parentheses_gap_append (gap_of_not_mem (hblanks _ hfront).1) _
  rw [hleft, hstart, parentheses_append_of_not_mem (hblanks _ hbehind).2]

/-! ## Parentheses in a row -/

/-- A text of parentheses of some kind with texts of another kind in front of each, and
one of a third kind behind the last. -/
inductive Row (inside between behind : List Char → Prop) : List Char → Prop where
  | last {rest : List Char} : behind rest → Row inside between behind rest
  | cons {gap inner row : List Char} : between gap → Closed inner → inside inner →
      Row inside between behind row →
      Row inside between behind (gap ++ (enclosed inner ++ row))

section

variable {inside inside' between between' behind behind' : List Char → Prop} {cs : List Char}

theorem Row.mono (hinside : ∀ inner, inside inner → inside' inner)
    (hbetween : ∀ gap, between gap → between' gap) (hbehind : ∀ rest, behind rest → behind' rest)
    (h : Row inside between behind cs) : Row inside' between' behind' cs := by
  induction h with
  | last h => exact .last (hbehind _ h)
  | cons hgap hclosed hinner _ ih => exact .cons (hbetween _ hgap) hclosed (hinside _ hinner) ih

/-- What holds inside of all parentheses of a row. -/
theorem Row.forall_parentheses (hbetween : ∀ gap, between gap → Gap gap)
    (hbehind : ∀ rest, behind rest → Trailing rest) (h : Row inside between behind cs) :
    ∀ inner ∈ parentheses none cs, inside inner := by
  induction h with
  | last h =>
    rw [parentheses_trailing (hbehind _ h)]
    exact List.forall_mem_nil _
  | cons hgap hclosed hinner _ ih =>
    rw [parentheses_gap_append (hbetween _ hgap), parentheses_enclosed_append hclosed,
      List.forall_mem_cons]
    exact ⟨hinner, ih⟩

/-- What is known inside of all parentheses may be added to a row. -/
theorem Row.and_of_forall (hbetween : ∀ gap, between gap → Gap gap)
    (hall : ∀ inner ∈ parentheses none cs, inside' inner) (h : Row inside between behind cs) :
    Row (fun inner => inside inner ∧ inside' inner) between behind cs := by
  induction h with
  | last h => exact .last h
  | cons hgap hclosed hinner _ ih =>
    rw [parentheses_gap_append (hbetween _ hgap), parentheses_enclosed_append hclosed,
      List.forall_mem_cons] at hall
    exact .cons hgap hclosed ⟨hinner, hall.1⟩ (ih hall.2)

theorem row_of_forall_parentheses {cs : List Char} (h : ∀ inner ∈ parentheses none cs, inside inner) :
    Row inside Gap Trailing cs := by
  rcases trailing_or_exists_enclosed cs with htrailing | ⟨gap, inner, rest, rfl, hgap, hclosed⟩
  · exact .last htrailing
  · rw [parentheses_gap_append hgap, parentheses_enclosed_append hclosed, List.forall_mem_cons] at h
    exact .cons hgap hclosed h.1 (row_of_forall_parentheses h.2)
termination_by cs.length
decreasing_by subst_vars; simp [enclosed]; omega

/-- Nothing is asked of a row but what is asked of its parentheses. -/
theorem row_iff : Row inside Gap Trailing cs ↔ ∀ inner ∈ parentheses none cs, inside inner :=
  ⟨Row.forall_parentheses (fun _ h => h) fun _ h => h, row_of_forall_parentheses⟩

end

/-! ## Conditions -/

/-- The name of a feature, with its bound: it may start with a hyphen, and is not a bound
alone. -/
def IsFeatureName (cs : List Char) : Prop :=
  (cs.head?.any fun c => isWordStart c || c == '-') = true ∧ (∀ c ∈ cs, isWordChar c = true) ∧
    ¬ IsKeyword "min-" cs ∧ ¬ IsKeyword "max-" cs

instance (cs : List Char) : Decidable (IsFeatureName cs) :=
  @instDecidableAnd _ _ inferInstance (@instDecidableAnd _ _ (List.decidableBAll _ cs) inferInstance)

/-- A feature with blanks around it, and behind them nothing, or a colon and a value of
some kind. -/
def IsFeature (value : List Char → Prop) (inner : List Char) : Prop :=
  ∃ before name gap rest, inner = before ++ name ++ gap ++ rest ∧ Blanks before ∧
    IsFeatureName name ∧ Blanks gap ∧ (rest = [] ∨ ∃ text, rest = ':' :: text ∧ value text)

theorem IsFeatureName.ne_nil {name : List Char} (h : IsFeatureName name) : name ≠ [] := by
  rintro rfl
  cases h.1

/-- A value stands behind a colon; blanks alone are none. -/
theorem conditionValue_cons (c : Char) (cs : List Char) : conditionValue (c :: cs) =
    if c == ':' && !cs.isEmpty then
      some (if (trim cs).isEmpty then none else some (String.ofList (trim cs)))
    else none := by
  by_cases hcolon : c = ':'
  · subst hcolon
    cases cs <;> rfl
  · rw [beq_false_of_ne hcolon]
    unfold conditionValue
    split
    · rename_i heq
      cases heq
    · rfl
    · rename_i heq
      exact absurd (List.cons.inj heq).1 hcolon
    · rfl

theorem isSome_conditionValue_iff {cs : List Char} :
    (conditionValue cs).isSome = true ↔ cs = [] ∨ ∃ text, cs = ':' :: text ∧ text ≠ [] := by
  unfold conditionValue
  split
  · exact iff_of_true rfl (.inl rfl)
  · simp
  · rename_i text hne
    refine iff_of_true rfl (.inr ⟨text, rfl, ?_⟩)
    rintro rfl
    exact hne rfl
  · rename_i hnil _ hcolon
    refine iff_of_false (by simp) ?_
    rintro (rfl | ⟨text, rfl, -⟩)
    · exact hnil rfl
    · exact hcolon text rfl

/-- Nothing is left of a name without its bound only if it is a bound alone. -/
theorem splitBound_eq_nil_iff {name : List Char} : (splitBound name).2 = [] ↔
    name = [] ∨ name = "min-".toList ∨ name = "max-".toList := by
  unfold splitBound
  split
  · simp
  · simp
  · rename_i hmin hmax
    constructor
    · exact .inl
    · rintro (rfl | rfl | rfl)
      · rfl
      · exact absurd rfl (hmin [])
      · exact absurd rfl (hmax [])

/-- No character of names may follow a name that is read to its end. -/
theorem takeWhile_isWordChar_append {name rest : List Char}
    (hname : ∀ c ∈ name, isWordChar c = true) (hrest : rest.head?.any isWordChar = false) :
    (name ++ rest).takeWhile isWordChar = name ∧ (name ++ rest).dropWhile isWordChar = rest := by
  rw [List.takeWhile_append_of_pos hname, List.dropWhile_append_of_pos hname]
  cases rest with
  | nil => exact ⟨List.append_nil _, rfl⟩
  | cons c rest =>
    have hc : ¬ isWordChar c = true := by simpa using hrest
    rw [List.takeWhile_cons_of_neg hc, List.dropWhile_cons_of_neg hc, List.append_nil]
    exact ⟨rfl, rfl⟩

theorem IsFeatureName.trimStart_append {name : List Char} (h : IsFeatureName name)
    (cs : List Char) : trimStart (name ++ cs) = name ++ cs := by
  refine dropWhile_isBlank ?_
  rw [List.head?_append_of_ne_nil _ h.ne_nil]
  cases name with
  | nil => rfl
  | cons c name => exact isBlank_of_isWordChar (h.2.1 c List.mem_cons_self)

/-- What stands behind a feature begins with a colon, if anything does. -/
theorem head?_behind_feature {value : List Char → Prop} {rest : List Char}
    (h : rest = [] ∨ ∃ text, rest = ':' :: text ∧ value text) :
    rest = [] ∨ rest.head? = some ':' := by
  rcases h with rfl | ⟨text, rfl, -⟩
  · exact .inl rfl
  · exact .inr rfl

/-- A name ends at a blank, at a colon and at the end of the text. -/
theorem any_head?_gap_append {gap rest : List Char} (hgap : Blanks gap)
    (hrest : rest = [] ∨ rest.head? = some ':') :
    (gap ++ rest).head?.any isWordChar = false := by
  cases gap with
  | nil =>
    rcases hrest with rfl | hcolon
    · rfl
    · rw [List.nil_append, hcolon]
      rfl
  | cons c gap =>
    rw [Bool.eq_false_iff]
    intro hc
    have hblank := hgap c List.mem_cons_self
    rw [isBlank_of_isWordChar hc] at hblank
    cases hblank

/-- The three things that a condition is tested for. -/
theorem isSome_condition?_iff_tests {inner : List Char} : (condition? inner).isSome = true ↔
    ((trimStart inner).head?.any fun c => isWordStart c || c == '-') = true ∧
      (splitBound (((trimStart inner).takeWhile isWordChar).map Char.toLower)).2 ≠ [] ∧
      (conditionValue (trimStart ((trimStart inner).dropWhile isWordChar))).isSome = true := by
  unfold condition?
  dsimp only
  split
  case isFalse hhead => exact iff_of_false Bool.false_ne_true fun h => hhead h.1
  case isTrue hhead =>
    split
    case h_1 value bound feature hvalue hbound =>
      rw [hvalue, hbound]
      split
      case isTrue hfeature => simp [List.isEmpty_iff.1 hfeature]
      case isFalse hfeature => simpa [hhead] using hfeature
    case h_2 hvalue => simp [hvalue]

/-- What is read from the inside of a parenthesis is a feature with its value, if any. -/
theorem isSome_condition?_iff {inner : List Char} :
    (condition? inner).isSome = true ↔ IsFeature (· ≠ []) inner := by
  rw [isSome_condition?_iff_tests, isSome_conditionValue_iff, Ne, splitBound_eq_nil_iff]
  constructor
  · rintro ⟨hhead, hbound, hvalue⟩
    obtain ⟨before, hbefore, hinner⟩ := exists_blanks_trimStart inner
    obtain ⟨gap, hgap, hrest⟩ := exists_blanks_trimStart ((trimStart inner).dropWhile isWordChar)
    rw [not_or, not_or] at hbound
    refine ⟨before, (trimStart inner).takeWhile isWordChar, gap,
      trimStart ((trimStart inner).dropWhile isWordChar), ?_, hbefore,
      ⟨?_, fun c hc => List.mem_takeWhile_imp hc, hbound.2⟩, hgap, hvalue⟩
    · rw [List.append_assoc, List.append_assoc, ← hrest, List.takeWhile_append_dropWhile, ← hinner]
    · -- the character at the head is one that names go on with, too
      cases hcs : trimStart inner with
      | nil => rw [hcs] at hhead; cases hhead
      | cons c cs =>
        rw [hcs] at hhead
        have hc : isWordChar c = true := by
          rw [isWordChar]
          rcases Bool.or_eq_true_iff.1 hhead with h | h
          · rw [h]; rfl
          · rw [h, Bool.or_true]
        rwa [List.takeWhile_cons_of_pos hc]
  · rintro ⟨before, name, gap, rest, rfl, hbefore, hname, hgap, hrest⟩
    have hbehind : trimStart (gap ++ rest) = rest := by
      rw [trimStart_blanks_append hgap]
      rcases hrest with rfl | ⟨text, rfl, -⟩ <;> rfl
    have hsolid : (gap ++ rest).head?.any isWordChar = false :=
      any_head?_gap_append hgap (head?_behind_feature hrest)
    have hstart : trimStart (before ++ name ++ gap ++ rest) = name ++ (gap ++ rest) := by
      rw [List.append_assoc, List.append_assoc, trimStart_blanks_append hbefore]
      exact hname.trimStart_append _
    obtain ⟨htake, hdrop⟩ := takeWhile_isWordChar_append hname.2.1 hsolid
    rw [hstart, htake, hdrop, hbehind]
    refine ⟨?_, ?_, hrest⟩
    · rw [List.head?_append_of_ne_nil _ hname.ne_nil]
      exact hname.1
    · rw [List.map_eq_nil_iff, not_or, not_or]
      exact ⟨hname.ne_nil, hname.2.2⟩

end CssPruning.Media
