import CssPruning.Text.Blank

/-!
# Collapsing blanks twice

The words of a text are words: not empty, and without blanks.  Words joined by
single spaces have the same words again, and so a text whose blanks are collapsed
stays as it is when they are collapsed once more (`collapse_collapse`).
-/

set_option autoImplicit false

namespace CssPruning.Text

/-- A word is not empty and has no blank in it. -/
def IsWord (w : List Char) : Prop := w ≠ [] ∧ ∀ c ∈ w, isBlank c = false

theorem isWord_of_mem_words {cs w : List Char} (h : w ∈ words cs) : IsWord w := by
  fun_induction words cs generalizing w with
  | case1 => cases h
  | case2 c cs hc ih => exact ih h
  | case3 c cs hc hnext ih =>
    rw [List.mem_cons] at h
    rcases h with rfl | h
    · exact ⟨List.cons_ne_nil _ _, by simpa using hc⟩
    · exact ih h
  | case4 c cs hc hnext v ws hws ih =>
    rw [List.mem_cons] at h
    rcases h with rfl | h
    · have hv : IsWord v := ih (hws ▸ List.mem_cons_self)
      refine ⟨List.cons_ne_nil _ _, List.forall_mem_cons.2 ⟨by simpa using hc, hv.2⟩⟩
    · exact ih (hws ▸ List.mem_cons_of_mem _ h)
  | case5 c cs hc hnext hws ih =>
    rw [List.mem_singleton] at h
    rw [h]
    exact ⟨List.cons_ne_nil _ _, by simpa using hc⟩

/-- A word in front of a blank, or of the end, is the first word. -/
theorem words_append {w cs : List Char} (h : IsWord w) (hcs : cs.head?.all isBlank = true) :
    words (w ++ cs) = w :: words cs := by
  obtain ⟨hne, hw⟩ := h
  induction w with
  | nil => exact absurd rfl hne
  | cons c w ih =>
    rw [List.forall_mem_cons] at hw
    have hc : ¬ isBlank c = true := by simp [hw.1]
    rw [List.cons_append, words, if_neg hc]
    cases w with
    | nil => rw [List.nil_append, if_pos hcs]
    | cons d w =>
      have hd : ¬ (d :: w ++ cs).head?.all isBlank = true := by
        have := (List.forall_mem_cons.1 hw.2).1
        simp [this]
      rw [if_neg hd, ih (List.cons_ne_nil _ _) hw.2]

/-- Words joined by single spaces are the words of that text. -/
theorem words_intercalate {ws : List (List Char)} (h : ∀ w ∈ ws, IsWord w) :
    words ([' '].intercalate ws) = ws := by
  induction ws with
  | nil => rfl
  | cons w ws ih =>
    rw [List.forall_mem_cons] at h
    cases ws with
    | nil =>
      have hlast : words (w ++ []) = w :: words [] := words_append h.1 rfl
      simpa [List.intercalate, words] using hlast
    | cons v ws =>
      have hspace : [' '].intercalate (w :: v :: ws) =
          w ++ ' ' :: [' '].intercalate (v :: ws) := by
        simp [List.intercalate]
      have hblank : isBlank ' ' = true := rfl
      rw [hspace, words_append h.1 rfl, words, if_pos hblank, ih h.2]

theorem collapse_collapse (cs : List Char) : collapse (collapse cs) = collapse cs := by
  rw [collapse, collapse, words_intercalate fun _ => isWord_of_mem_words]

end CssPruning.Text
