import Mathlib.Data.List.Basic
import Mathlib.Data.List.TakeWhile
import CssPruning.Proofs.Text.Collapse

/-!
# Texts without blanks at their ends

Trimming leaves a text as it is if no blank stands at its ends (`trim_eq_self`),
and nothing of a text is left only if it is blank all through.
-/

set_option autoImplicit false

namespace CssPruning.Text

/-- The text neither starts nor ends with a blank. -/
def Flush (cs : List Char) : Prop :=
  cs.head?.any isBlank = false ∧ cs.getLast?.any isBlank = false

instance (cs : List Char) : Decidable (Flush cs) := inferInstanceAs (Decidable (_ ∧ _))

theorem flush_nil : Flush [] := ⟨rfl, rfl⟩

theorem flush_of_forall {cs : List Char} (h : ∀ c ∈ cs, isBlank c = false) : Flush cs := by
  constructor
  · cases hc : cs.head? with
    | none => rfl
    | some c => exact h c (List.mem_of_mem_head? hc)
  · cases hc : cs.getLast? with
    | none => rfl
    | some c => exact h c (List.mem_of_mem_getLast? hc)

/-- What stands in the middle does not matter. -/
theorem Flush.append {cs cs' : List Char} (h : Flush cs) (h' : Flush cs') (hne : cs ≠ [])
    (hne' : cs' ≠ []) (xs : List Char) : Flush (cs ++ xs ++ cs') := by
  constructor
  · rw [List.append_assoc, List.head?_append_of_ne_nil _ hne]
    exact h.1
  · rw [List.getLast?_append_of_ne_nil _ hne']
    exact h'.2

theorem dropWhile_isBlank {cs : List Char} (h : cs.head?.any isBlank = false) :
    cs.dropWhile isBlank = cs := by
  cases cs with
  | nil => rfl
  | cons c cs => exact List.dropWhile_cons_of_neg (by simpa using h)

theorem trimEnd_eq_self {cs : List Char} (h : cs.getLast?.any isBlank = false) :
    trimEnd cs = cs := by
  rw [← List.head?_reverse] at h
  rw [trimEnd, dropWhile_isBlank h, List.reverse_reverse]

theorem trim_eq_self {cs : List Char} (h : Flush cs) : trim cs = cs := by
  rw [trim, trimStart, dropWhile_isBlank h.1, trimEnd_eq_self h.2]

/-- Blanks are trimmed away in front of a text that has none at its ends, and nothing of
that text is. -/
theorem exists_trim_append_eq {cs : List Char} (h : Flush cs) (hne : cs ≠ [])
    (front : List Char) : ∃ front', trim (front ++ cs) = front' ++ cs := by
  refine ⟨front.dropWhile isBlank, ?_⟩
  have hstart : trimStart (front ++ cs) = front.dropWhile isBlank ++ cs := by
    rw [trimStart, List.dropWhile_append]
    split
    · rename_i hnil
      rw [List.isEmpty_iff.1 hnil, dropWhile_isBlank h.1, List.nil_append]
    · rfl
  rw [trim, hstart]
  apply trimEnd_eq_self
  rw [List.getLast?_append_of_ne_nil _ hne]
  exact h.2

theorem any_head?_dropWhile_isBlank (cs : List Char) :
    (cs.dropWhile isBlank).head?.any isBlank = false := by
  cases h : (cs.dropWhile isBlank).head? with
  | none => rfl
  | some c => simpa [h] using List.head?_dropWhile_not isBlank cs

/-- No blank is left at the ends. -/
theorem flush_trim (cs : List Char) : Flush (trim cs) := by
  have hend : (trim cs).getLast?.any isBlank = false := by
    rw [trim, trimEnd, List.getLast?_reverse]
    exact any_head?_dropWhile_isBlank _
  refine ⟨?_, hend⟩
  -- what the second step leaves is the front of what the first has left
  obtain ⟨ds, hds⟩ : trim cs <+: trimStart cs := by
    rw [trim, trimEnd, ← List.reverse_suffix, List.reverse_reverse]
    exact List.dropWhile_suffix _
  have hstart : (trimStart cs).head?.any isBlank = false := any_head?_dropWhile_isBlank cs
  cases h : trim cs with
  | nil => rfl
  | cons c rest => rwa [← hds, h, List.cons_append, List.head?_cons] at hstart

theorem trim_sublist (cs : List Char) : (trim cs).Sublist cs := by
  have hend : (trim cs).Sublist (trimStart cs) := by
    rw [trim, trimEnd, ← List.reverse_sublist, List.reverse_reverse]
    exact List.dropWhile_sublist _
  exact hend.trans (List.dropWhile_sublist _)

theorem mem_of_mem_trim {cs : List Char} {c : Char} (h : c ∈ trim cs) : c ∈ cs :=
  (trim_sublist cs).subset h

/-- A blank in front is trimmed away. -/
theorem trim_cons_space (cs : List Char) : trim (' ' :: cs) = trim cs := by
  rw [trim, trim, trimStart, List.dropWhile_cons_of_pos rfl]
  rfl

/-- Something is left of a text that does not start with a blank. -/
theorem isEmpty_trim_cons {c : Char} (hc : isBlank c = false) (cs : List Char) :
    (trim (c :: cs)).isEmpty = false := by
  have hstart : trimStart (c :: cs) = c :: cs := dropWhile_isBlank (by simpa using hc)
  rw [trim, hstart, trimEnd, List.isEmpty_eq_false_iff, Ne, List.reverse_eq_nil_iff]
  intro hnil
  rw [List.dropWhile_eq_nil_iff] at hnil
  have := hnil c (by simp)
  rw [hc] at this
  cases this

/-- Words with single spaces between them have no blank at their ends. -/
theorem flush_intercalate {ws : List (List Char)} (h : ∀ w ∈ ws, IsWord w) :
    Flush ([' '].intercalate ws) ∧ (ws ≠ [] → [' '].intercalate ws ≠ []) := by
  induction ws with
  | nil => exact ⟨flush_nil, fun hne => absurd rfl hne⟩
  | cons w ws ih =>
    rw [List.forall_mem_cons] at h
    obtain ⟨⟨hne, hw⟩, hws⟩ := h
    cases ws with
    | nil =>
      have hone : [' '].intercalate [w] = w := by simp [List.intercalate]
      rw [hone]
      exact ⟨flush_of_forall hw, fun _ => hne⟩
    | cons v ws =>
      have hspace : [' '].intercalate (w :: v :: ws) = w ++ [' '] ++ [' '].intercalate (v :: ws) := by
        simp [List.intercalate]
      obtain ⟨hflush, hrest⟩ := ih hws
      rw [hspace]
      exact ⟨(flush_of_forall hw).append hflush hne (hrest (List.cons_ne_nil _ _)) [' '], by simp⟩

/-- A text whose words are joined by single spaces already is not changed. -/
theorem collapse_intercalate {ws : List (List Char)} (h : ∀ w ∈ ws, IsWord w) :
    collapse ([' '].intercalate ws) = [' '].intercalate ws := by
  rw [collapse, words_intercalate h]

/-! ## Words of a trimmed text -/

theorem words_cons_blank {b : Char} (hb : isBlank b = true) (cs : List Char) :
    words (b :: cs) = words cs := by
  rw [words, if_pos hb]

theorem words_concat_blank {b : Char} (hb : isBlank b = true) (cs : List Char) :
    words (cs ++ [b]) = words cs := by
  induction cs with
  | nil => exact words_cons_blank hb []
  | cons c cs ih =>
    have hhead : (cs ++ [b]).head?.all isBlank = cs.head?.all isBlank := by
      cases cs with
      | nil => exact hb
      | cons d cs => rfl
    rw [List.cons_append, words, words, ih, hhead]

theorem words_trimStart (cs : List Char) : words (trimStart cs) = words cs := by
  induction cs with
  | nil => rfl
  | cons c cs ih =>
    by_cases hc : isBlank c = true
    · rw [words_cons_blank hc, ← ih, trimStart, List.dropWhile_cons_of_pos hc]
      rfl
    · rw [trimStart, List.dropWhile_cons_of_neg hc]

theorem words_trimEnd (cs : List Char) : words (trimEnd cs) = words cs := by
  have hreverse (ds : List Char) : words (ds.dropWhile isBlank).reverse = words ds.reverse := by
    induction ds with
    | nil => rfl
    | cons d ds ih =>
      by_cases hd : isBlank d = true
      · rw [List.dropWhile_cons_of_pos hd, ih, List.reverse_cons, words_concat_blank hd]
      · rw [List.dropWhile_cons_of_neg hd]
  rw [trimEnd, hreverse, List.reverse_reverse]

theorem words_trim (cs : List Char) : words (trim cs) = words cs := by
  rw [trim, words_trimEnd, words_trimStart]

/-- A text without blanks at its ends has words, unless there is nothing of it. -/
theorem words_eq_nil_iff {cs : List Char} : words cs = [] ↔ trim cs = [] := by
  rw [← words_trim]
  cases h : trim cs with
  | nil => exact iff_of_true rfl rfl
  | cons c rest =>
    have hc : ¬ isBlank c = true := by
      have := (flush_trim cs).1
      rw [h] at this
      simpa using this
    refine iff_of_false ?_ (List.cons_ne_nil _ _)
    rw [words, if_neg hc]
    split
    · exact List.cons_ne_nil _ _
    · split <;> exact List.cons_ne_nil _ _

end CssPruning.Text
