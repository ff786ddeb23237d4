import CssPruning.Proofs.Value.Trimming
import CssPruning.Sheet.Reader
import CssPruning.Value.Important

/-!
# The mark of importance

A value is marked if it is some other value, that does not end with a blank, with the
exclamation mark and the word behind it, and blanks in front of either
(`Value.MarkedBehind`).  Taking the mark off gives that other value, and leaves a value
that is not marked as it is (`Value.stripImportant_exact`).

The search from the end and the cuts come to the same as a look at the value from its end
(`Value.stripImportant_eq`), which is how declarations are read (`Declaration.read_eq`).
-/

set_option autoImplicit false

namespace CssPruning

/-- The component is the exclamation mark. -/
def Component.isBang : Component → Bool
  | raw "!" => true
  | _ => false

theorem Component.isBang_iff {c : Component} : c.isBang = true ↔ c = raw "!" := by
  constructor
  · intro h
    unfold isBang at h
    split at h
    · rfl
    · cases h
  · rintro rfl
    rfl

namespace Value

/-- The value is `before` with the mark of importance behind it. -/
structure MarkedBehind (before v : Value) : Prop where
  /-- the blanks in front of the mark belong to the mark -/
  endsBlank_eq : before.endsBlank = false
  eq_append : ∃ (m n : Nat) (word : String), Text.lowerAscii word = "important" ∧
    v = before ++ List.replicate m .blank ++
      .raw "!" :: (List.replicate n .blank ++ [.ident word])

/-! ## The last component that is no blank -/

theorem eq_blank {c : Component} (h : c.isBlank = true) : c = .blank := by
  cases c <;> first | rfl | cases h

/-- A value is blank all through, or it has a last component that is no blank. -/
theorem exists_last_part (v : Value) :
    v = List.replicate v.length .blank ∨
      ∃ (front : Value) (c : Component) (n : Nat), c.isBlank = false ∧
        v = front ++ c :: List.replicate n .blank := by
  obtain ⟨ends, hends, hv⟩ := v.exists_dropEndBlanks_append
  have hreplicate : ends = List.replicate ends.length .blank :=
    List.eq_replicate_of_mem fun c hc => eq_blank (hends c hc)
  have hlast := v.endsBlank_dropEndBlanks
  rcases List.eq_nil_or_concat v.dropEndBlanks with hnil | ⟨front, c, hconcat⟩
  · left
    rw [hnil, List.nil_append] at hv
    rw [hv, ← hreplicate]
  · right
    rw [hconcat, List.concat_eq_append, endsBlank, List.getLast?_concat] at hlast
    refine ⟨front, c, ends.length, hlast, ?_⟩
    rw [← hreplicate, hv, hconcat, List.concat_eq_append, List.append_assoc]
    rfl

theorem lastPlace_of_forall {α : Type} {p : α → Bool} {xs : List α}
    (h : ∀ x ∈ xs, p x = false) : lastPlace p xs = none := by
  induction xs with
  | nil => rfl
  | cons x xs ih =>
    rw [List.forall_mem_cons] at h
    rw [lastPlace, ih h.2]
    exact if_neg (Bool.eq_false_iff.1 h.1)

theorem lastPlace_append_cons {α : Type} {p : α → Bool} {x : α} {behind : List α}
    (hx : p x = true) (hbehind : ∀ y ∈ behind, p y = false) (front : List α) :
    lastPlace p (front ++ x :: behind) = some front.length := by
  induction front with
  | nil =>
    rw [List.nil_append, lastPlace, lastPlace_of_forall hbehind]
    exact if_pos hx
  | cons y front ih =>
    rw [List.cons_append, lastPlace, ih]
    rfl

theorem popBlanks_eq (v : Value) : v.popBlanks = v.dropEndBlanks := by
  fun_induction popBlanks v with
  | case1 v h _ ih =>
    obtain ⟨front, rfl⟩ := List.getLast?_eq_some_iff.1 h
    rw [ih, List.dropLast_concat, dropEndBlanks, dropEndBlanks, List.reverse_concat]
    rfl
  | case2 v h =>
    refine (dropEndBlanks_eq_self ?_).symm
    cases hlast : v.getLast? with
    | none => rfl
    | some c =>
      rw [Option.any_some, Bool.eq_false_iff]
      intro hc
      rw [eq_blank hc] at hlast
      exact h hlast

/-- Blanks behind a value that does not end with one are all that is dropped. -/
theorem dropEndBlanks_append_replicate {v : Value} (h : v.endsBlank = false) (n : Nat) :
    dropEndBlanks (v ++ List.replicate n .blank) = v := by
  have hblanks : ∀ c ∈ List.replicate n Component.blank, c.isBlank = true :=
    fun c hc => congrArg Component.isBlank (List.eq_of_mem_replicate hc)
  rw [dropEndBlanks, List.reverse_append, List.reverse_replicate,
    List.dropWhile_append_of_pos hblanks]
  exact dropEndBlanks_eq_self h

/-! ## Two looks at the end of a value -/

theorem sameAscii_important_iff {word : String} :
    Text.sameAscii word "important" = true ↔ Text.lowerAscii word = "important" := by
  have hsmall : Text.lowerAscii "important" = "important" := by decide +kernel
  rw [Text.sameAscii, hsmall, beq_iff_eq]

section

variable {front : Value} {c : Component} {n : Nat} {word : String}

/-- Taking the mark off a value that ends in the word, with blanks and some other component in
front of the word. -/
theorem stripImportant_word (hword : Text.lowerAscii word = "important") (hc : c.isBlank = false) :
    stripImportant (front ++ c :: (List.replicate n .blank ++ [.ident word])) =
      if c.isBang then (true, front.dropEndBlanks)
      else (false, front ++ c :: (List.replicate n .blank ++ [.ident word])) := by
  have hfront : front ++ c :: (List.replicate n .blank ++ [.ident word]) =
      (front ++ c :: List.replicate n .blank) ++ [.ident word] := by
    rw [List.append_assoc, List.cons_append]
  have hplace : lastPlace (fun c => !c.isBlank) (front ++ c :: List.replicate n .blank) =
      some front.length := by
    refine lastPlace_append_cons (by rw [hc]; rfl) (fun y hy => ?_) front
    rw [List.eq_of_mem_replicate hy]
    rfl
  rw [hfront, stripImportant, List.getLast?_concat, List.dropLast_concat]
  dsimp only
  rw [if_pos (sameAscii_important_iff.2 hword), hplace, ← hfront]
  dsimp only
  rw [List.getElem?_append_right (Nat.le_refl _), Nat.sub_self, List.getElem?_cons_zero,
    List.take_left, popBlanks_eq]
  split
  · rename_i hraw
    cases hraw
    rfl
  · rename_i hraw
    rw [if_neg fun hbang => hraw (congrArg some (Component.isBang_iff.1 hbang))]

/-- The same value looked at from its end. -/
theorem beforeImportant_word (hword : Text.lowerAscii word = "important") (hc : c.isBlank = false) :
    beforeImportant (front ++ c :: (List.replicate n .blank ++ [.ident word])) =
      if c.isBang then some front.dropEndBlanks else none := by
  have hreverse : (front ++ c :: (List.replicate n .blank ++ [.ident word])).reverse =
      .ident word :: (List.replicate n .blank ++ c :: front.reverse) := by
    simp
  have hblanks : ∀ c ∈ List.replicate n Component.blank, c.isBlank = true :=
    fun c hc => congrArg Component.isBlank (List.eq_of_mem_replicate hc)
  rw [beforeImportant, hreverse]
  dsimp only
  rw [if_pos (sameAscii_important_iff.2 hword), List.dropWhile_append_of_pos hblanks,
    List.dropWhile_cons_of_neg (by rw [hc]; exact Bool.false_ne_true)]
  split
  · rename_i hraw
    cases hraw
    rw [List.reverse_reverse]
    rfl
  · rename_i hraw
    refine (if_neg fun hbang => hraw front.reverse ?_).symm
    rw [Component.isBang_iff.1 hbang]

end

/-- Both find the mark of a marked value, and the blanks in front of it. -/
theorem MarkedBehind.found {before v : Value} (h : MarkedBehind before v) :
    v.stripImportant = (true, before) ∧ v.beforeImportant = some before := by
  obtain ⟨hends, m, n, word, hword, rfl⟩ := h
  have hdrop := dropEndBlanks_append_replicate hends m
  constructor
  · rw [stripImportant_word hword rfl]
    exact congrArg (Prod.mk true) hdrop
  · rw [beforeImportant_word hword rfl]
    exact congrArg some hdrop

/-- Neither finds a mark where there is none. -/
theorem missed_or_exists_markedBehind (v : Value) :
    (v.stripImportant = (false, v) ∧ v.beforeImportant = none) ∨
      ∃ before, MarkedBehind before v := by
  rcases List.eq_nil_or_concat v with rfl | ⟨w, last, rfl⟩
  · exact .inl ⟨rfl, rfl⟩
  rw [List.concat_eq_append]
  have hreverse : (w ++ [last]).reverse = last :: w.reverse := List.reverse_concat
  by_cases hlast : ∃ word, last = .ident word ∧ Text.lowerAscii word = "important"
  · obtain ⟨word, rfl, hword⟩ := hlast
    rcases Value.exists_last_part w with hblank | ⟨front, c, n, hc, rfl⟩
    · -- nothing but blanks stands in front of the word
      left
      have hplace : lastPlace (fun c => !c.isBlank) w = none := by
        refine lastPlace_of_forall fun c hcw => ?_
        rw [hblank] at hcw
        rw [List.eq_of_mem_replicate hcw]
        rfl
      have hdrop : w.reverse.dropWhile Component.isBlank = [] := by
        rw [hblank, List.reverse_replicate, List.dropWhile_eq_nil_iff]
        exact fun c hcw => congrArg Component.isBlank (List.eq_of_mem_replicate hcw)
      rw [stripImportant, List.getLast?_concat, List.dropLast_concat, beforeImportant, hreverse]
      dsimp only
      rw [if_pos (sameAscii_important_iff.2 hword), if_pos (sameAscii_important_iff.2 hword),
        hplace, hdrop]
      exact ⟨rfl, rfl⟩
    · rw [List.append_assoc, List.cons_append]
      by_cases hbang : c.isBang = true
      · obtain rfl := Component.isBang_iff.1 hbang
        obtain ⟨ends, hends, hfront⟩ := front.exists_dropEndBlanks_append
        have hreplicate : ends = List.replicate ends.length .blank :=
          List.eq_replicate_of_mem fun c hc => eq_blank (hends c hc)
        refine .inr ⟨front.dropEndBlanks, front.endsBlank_dropEndBlanks, ends.length, n, word,
          hword, ?_⟩
        rw [← hreplicate, ← hfront]
      · left
        rw [stripImportant_word hword hc, beforeImportant_word hword hc]
        exact ⟨if_neg hbang, if_neg hbang⟩
  · left
    have hsame {word : String} (hident : last = .ident word) :
        ¬ Text.sameAscii word "important" = true :=
      fun hsame => hlast ⟨word, hident, sameAscii_important_iff.1 hsame⟩
    rw [stripImportant, List.getLast?_concat, beforeImportant, hreverse]
    cases last with
    | ident word => exact ⟨if_neg (hsame rfl), if_neg (hsame rfl)⟩
    | _ => exact ⟨rfl, rfl⟩

/-- The search from the end and the cuts are a look at the value from its end. -/
theorem stripImportant_eq (v : Value) : v.stripImportant =
    match v.beforeImportant with
    | some before => (true, before)
    | none => (false, v) := by
  rcases v.missed_or_exists_markedBehind with ⟨hstrip, hbefore⟩ | ⟨before, hmarked⟩
  · rw [hstrip, hbefore]
  · rw [hmarked.found.1, hmarked.found.2]

/-- The mark is taken off exactly the values that have one, with the blanks in front of it,
and every other value is left as it is. -/
theorem stripImportant_exact (v : Value) :
    (∀ before, v.stripImportant = (true, before) ↔ MarkedBehind before v) ∧
      ((∀ before, ¬ MarkedBehind before v) → v.stripImportant = (false, v)) := by
  rcases v.missed_or_exists_markedBehind with ⟨hstrip, -⟩ | ⟨before, hmarked⟩
  · refine ⟨fun before => ⟨fun h => ?_, fun h => h.found.1⟩, fun _ => hstrip⟩
    rw [hstrip] at h
    cases h
  · refine ⟨fun before' => ⟨fun h => ?_, fun h => h.found.1⟩, fun h => absurd hmarked (h before)⟩
    rw [hmarked.found.1] at h
    cases h
    exact hmarked

end Value

/-- A declaration is what its property and value are with the mark of importance taken off. -/
theorem Declaration.read_eq (property value : List Char) (start : Nat) :
    Declaration.read property value start =
      match Value.read value with
      | .error f => .error ⟨f.flaw, start⟩
      | .ok v =>
        .ok ⟨String.ofList (Text.trim property), v.stripImportant.2, v.stripImportant.1⟩ := by
  rw [Declaration.read]
  cases Value.read value with
  | error f => rfl
  | ok v =>
    dsimp only
    rw [v.stripImportant_eq]
    cases v.beforeImportant <;> rfl

end CssPruning
