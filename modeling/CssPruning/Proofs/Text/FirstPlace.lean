import Mathlib.Data.List.Basic
import Mathlib.Data.List.TakeWhile

/-!
# The first place of a character

A text is split in front of the first place where some character stands.  What stands in
front of that place does not have the character, and there is one such split
(`append_cons_inj`).
-/

set_option autoImplicit false

namespace CssPruning.Text

variable {c d : Char} {cs front front' rest rest' : List Char}

/-- Two texts up to the first place of a character are the same if the whole texts are. -/
theorem append_cons_inj (h : c ∉ front) (h' : c ∉ front')
    (heq : front ++ c :: rest = front' ++ c :: rest') : front = front' ∧ rest = rest' := by
  induction front generalizing front' with
  | nil =>
    cases front' with
    | nil => exact ⟨rfl, (List.cons.inj heq).2⟩
    | cons d front' =>
      obtain ⟨rfl, -⟩ := List.cons.inj heq
      exact absurd List.mem_cons_self h'
  | cons d front ih =>
    rw [List.mem_cons, not_or] at h
    cases front' with
    | nil => exact absurd (List.cons.inj heq).1.symm h.1
    | cons d' front' =>
      rw [List.mem_cons, not_or] at h'
      obtain ⟨rfl, htail⟩ := List.cons.inj heq
      obtain ⟨rfl, hrest⟩ := ih h.2 h'.2 htail
      exact ⟨rfl, hrest⟩

theorem bne_of_not_mem (h : c ∉ front) : ∀ d ∈ front, (d != c) = true := by
  intro d hd
  rw [bne_iff_ne]
  rintro rfl
  exact h hd

theorem takeWhile_bne_append (h : c ∉ front) (rest : List Char) :
    (front ++ c :: rest).takeWhile (· != c) = front := by
  rw [List.takeWhile_append_of_pos (bne_of_not_mem h), List.takeWhile_cons_of_neg (by simp),
    List.append_nil]

theorem dropWhile_bne_append (h : c ∉ front) (rest : List Char) :
    (front ++ c :: rest).dropWhile (· != c) = c :: rest := by
  rw [List.dropWhile_append_of_pos (bne_of_not_mem h), List.dropWhile_cons_of_neg (by simp)]

/-- If a text goes on anywhere, it does so with the character. -/
theorem eq_of_dropWhile_bne (h : cs.dropWhile (· != c) = d :: rest) : d = c := by
  have hhead := List.head?_dropWhile_not (· != c) cs
  rw [h] at hhead
  simpa using hhead

theorem exists_of_dropWhile_bne (h : cs.dropWhile (· != c) = d :: rest) :
    ∃ front, c ∉ front ∧ cs = front ++ c :: rest := by
  refine ⟨cs.takeWhile (· != c), fun hmem => ?_, ?_⟩
  · simpa using List.mem_takeWhile_imp hmem
  · obtain rfl := eq_of_dropWhile_bne h
    rw [← h, List.takeWhile_append_dropWhile]

end CssPruning.Text
