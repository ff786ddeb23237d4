import CssPruning.Proofs.Text.Trim

/-!
# Collapsing blanks from left to right

`collapse` is told by the words of a text.  Here it is told by its characters, one
after another: a blank gives way to a space, or to nothing if there is a blank in
front of it (`squeeze`).  The two agree on a text that does not end with a blank
(`collapse_eq_squeeze`).

What is squeezed may be cut anywhere (`squeeze_append`), which is what a scanner
needs that reads one lexeme of it after another.
-/

set_option autoImplicit false

namespace CssPruning.Text

/-- The text with every run of blanks as one space; behind a blank, without the run
it starts with. -/
def squeeze : Bool → List Char → List Char
  | _, [] => []
  | behindBlank, c :: cs =>
    if isBlank c then
      if behindBlank then squeeze true cs else ' ' :: squeeze true cs
    else c :: squeeze false cs

/-- The text ends with a blank; if nothing of it is there, what stands in front does. -/
def endsBlank : Bool → List Char → Bool
  | behindBlank, [] => behindBlank
  | _, c :: cs => endsBlank (isBlank c) cs

variable {c : Char} {b : Bool} {cs xs ys : List Char}

@[simp] theorem squeeze_nil (b : Bool) : squeeze b [] = [] := rfl

theorem endsBlank_nil (b : Bool) : endsBlank b [] = b := rfl

theorem endsBlank_cons (b : Bool) (c : Char) (cs : List Char) :
    endsBlank b (c :: cs) = endsBlank (isBlank c) cs := rfl

theorem squeeze_true_cons (hc : isBlank c = true) (cs : List Char) :
    squeeze true (c :: cs) = squeeze true cs := by
  rw [squeeze, if_pos hc, if_pos rfl]

theorem squeeze_false_cons (hc : isBlank c = true) (cs : List Char) :
    squeeze false (c :: cs) = ' ' :: squeeze true cs := by
  rw [squeeze, if_pos hc, if_neg Bool.false_ne_true]

theorem squeeze_cons (hc : isBlank c = false) (b : Bool) (cs : List Char) :
    squeeze b (c :: cs) = c :: squeeze false cs := by
  rw [squeeze, if_neg (Bool.eq_false_iff.1 hc)]

theorem squeeze_append (b : Bool) (xs ys : List Char) :
    squeeze b (xs ++ ys) = squeeze b xs ++ squeeze (endsBlank b xs) ys := by
  induction xs generalizing b with
  | nil => rfl
  | cons x xs ih =>
    cases hx : isBlank x with
    | false =>
      rw [List.cons_append, squeeze_cons hx, squeeze_cons hx, endsBlank_cons, hx, ih,
        List.cons_append]
    | true =>
      cases b with
      | false =>
        rw [List.cons_append, squeeze_false_cons hx, squeeze_false_cons hx, endsBlank_cons, hx, ih,
          List.cons_append]
      | true =>
        rw [List.cons_append, squeeze_true_cons hx, squeeze_true_cons hx, endsBlank_cons, hx, ih]

theorem endsBlank_append (b : Bool) (xs ys : List Char) :
    endsBlank b (xs ++ ys) = endsBlank (endsBlank b xs) ys := by
  induction xs generalizing b with
  | nil => rfl
  | cons x xs ih => exact ih _

theorem endsBlank_of_ne_nil (h : cs ≠ []) (b b' : Bool) : endsBlank b cs = endsBlank b' cs := by
  cases cs with
  | nil => exact absurd rfl h
  | cons c cs => rfl

/-- What stands in front matters only to a text that starts with a blank. -/
theorem squeeze_of_head (h : cs.head?.any isBlank = false) (b b' : Bool) :
    squeeze b cs = squeeze b' cs := by
  cases cs with
  | nil => rfl
  | cons c cs =>
    have hc : isBlank c = false := by simpa using h
    rw [squeeze_cons hc, squeeze_cons hc]

/-- Behind a blank, what is squeezed starts with no blank. -/
theorem any_head?_squeeze_true (cs : List Char) : (squeeze true cs).head?.any isBlank = false := by
  induction cs with
  | nil => rfl
  | cons c cs ih =>
    cases hc : isBlank c with
    | true => rwa [squeeze_true_cons hc]
    | false =>
      rw [squeeze_cons hc]
      exact hc

/-- The only blanks left are spaces. -/
theorem eq_space_of_mem_squeeze (h : c ∈ squeeze b cs) (hc : isBlank c = true) : c = ' ' := by
  induction cs generalizing b with
  | nil => cases h
  | cons d cs ih =>
    cases hd : isBlank d with
    | false =>
      rw [squeeze_cons hd, List.mem_cons] at h
      rcases h with rfl | h
      · rw [hc] at hd
        cases hd
      · exact ih h
    | true =>
      cases b with
      | true =>
        rw [squeeze_true_cons hd] at h
        exact ih h
      | false =>
        rw [squeeze_false_cons hd, List.mem_cons] at h
        exact h.elim id ih

theorem length_squeeze_le (b : Bool) (cs : List Char) : (squeeze b cs).length ≤ cs.length := by
  induction cs generalizing b with
  | nil => exact Nat.le_refl 0
  | cons c cs ih =>
    have hsome (b : Bool) : (squeeze b cs).length + 1 ≤ (c :: cs).length :=
      Nat.succ_le_succ (ih b)
    cases hc : isBlank c with
    | false =>
      rw [squeeze_cons hc]
      exact hsome false
    | true =>
      cases b with
      | false =>
        rw [squeeze_false_cons hc]
        exact hsome true
      | true =>
        rw [squeeze_true_cons hc]
        exact Nat.le_of_succ_le (hsome true)

theorem squeeze_squeeze (b : Bool) (cs : List Char) : squeeze b (squeeze b cs) = squeeze b cs := by
  induction cs generalizing b with
  | nil => rfl
  | cons c cs ih =>
    cases hc : isBlank c with
    | false => rw [squeeze_cons hc, squeeze_cons hc, ih]
    | true =>
      cases b with
      | true => rw [squeeze_true_cons hc, ih]
      | false =>
        have hspace : isBlank ' ' = true := rfl
        rw [squeeze_false_cons hc, squeeze_false_cons hspace, ih]

/-- A part of a text that has nothing to squeeze has nothing to squeeze. -/
theorem squeeze_eq_of_append (h : squeeze b (xs ++ ys) = xs ++ ys) :
    squeeze b xs = xs ∧ squeeze (endsBlank b xs) ys = ys := by
  rw [squeeze_append] at h
  have hlength := congrArg List.length h
  rw [List.length_append, List.length_append] at hlength
  have hxs := length_squeeze_le b xs
  have hys := length_squeeze_le (endsBlank b xs) ys
  exact List.append_inj h (by omega)

/-! ## What stays in its place -/

/-- What has no blank stays, and so does the place of what follows. -/
theorem squeeze_false_append (hxs : ∀ x ∈ xs, isBlank x = false) (ys : List Char) :
    squeeze false (xs ++ ys) = xs ++ squeeze false ys := by
  induction xs with
  | nil => rfl
  | cons x xs ih =>
    rw [List.forall_mem_cons] at hxs
    rw [List.cons_append, squeeze_cons hxs.1, ih hxs.2, List.cons_append]

/-- A character that is no blank was there before. -/
theorem eq_cons_of_squeeze (hc : isBlank c = false) (h : squeeze false cs = c :: ys) :
    ∃ cs', cs = c :: cs' ∧ ys = squeeze false cs' := by
  cases cs with
  | nil => cases h
  | cons d cs =>
    cases hd : isBlank d with
    | false =>
      rw [squeeze_cons hd] at h
      obtain ⟨rfl, rfl⟩ := List.cons.inj h
      exact ⟨cs, rfl, rfl⟩
    | true =>
      rw [squeeze_false_cons hd] at h
      rw [← (List.cons.inj h).1] at hc
      cases hc

section

variable {p : Char → Bool} (hp : ∀ c, isBlank c = true → p c = false)

include hp

theorem any_head?_squeeze (cs : List Char) : (squeeze false cs).head?.any p = cs.head?.any p := by
  cases cs with
  | nil => rfl
  | cons c cs =>
    cases hc : isBlank c with
    | false => rw [squeeze_cons hc, List.head?_cons, List.head?_cons]
    | true =>
      rw [squeeze_false_cons hc, List.head?_cons, List.head?_cons, Option.any_some,
        Option.any_some, hp c hc, hp ' ' rfl]

/-- A run of characters that are no blanks stays, as far as it is looked at. -/
theorem takeWhile_take_squeeze (n : Nat) (cs : List Char) :
    ((squeeze false cs).take n).takeWhile p = (cs.take n).takeWhile p := by
  induction n generalizing cs with
  | zero => rfl
  | succ n ih =>
    cases cs with
    | nil => rfl
    | cons c cs =>
      cases hc : isBlank c with
      | false => rw [squeeze_cons hc, List.take_succ_cons, List.take_succ_cons,
          List.takeWhile_cons, List.takeWhile_cons, ih]
      | true =>
        rw [squeeze_false_cons hc, List.take_succ_cons, List.take_succ_cons,
          List.takeWhile_cons_of_neg (by simp [hp ' ' rfl]),
          List.takeWhile_cons_of_neg (by simp [hp c hc])]

theorem takeWhile_squeeze (cs : List Char) :
    (squeeze false cs).takeWhile p = cs.takeWhile p := by
  have h := takeWhile_take_squeeze hp cs.length cs
  rwa [List.take_of_length_le (length_squeeze_le false cs), List.take_length] at h

theorem dropWhile_squeeze (cs : List Char) :
    (squeeze false cs).dropWhile p = squeeze false (cs.dropWhile p) := by
  have hxs : ∀ x ∈ cs.takeWhile p, isBlank x = false := by
    intro x hx
    cases hblank : isBlank x with
    | false => rfl
    | true =>
      have := List.all_eq_true.1 List.all_takeWhile x hx
      rw [hp x hblank] at this
      cases this
  have hsplit := List.takeWhile_append_dropWhile (p := p) (l := squeeze false cs)
  rw [takeWhile_squeeze hp] at hsplit
  have hcs : squeeze false cs = cs.takeWhile p ++ squeeze false (cs.dropWhile p) := by
    rw [← squeeze_false_append hxs, List.takeWhile_append_dropWhile]
  exact List.append_cancel_left (hsplit.trans hcs)

end

/-! ## Collapsing -/

theorem isBlank_of_squeeze_eq_nil (h : squeeze true cs = []) (hc : c ∈ cs) : isBlank c = true := by
  induction cs with
  | nil => cases hc
  | cons d cs ih =>
    cases hd : isBlank d with
    | false =>
      rw [squeeze_cons hd] at h
      cases h
    | true =>
      rw [squeeze_true_cons hd] at h
      rcases List.mem_cons.1 hc with rfl | hc
      · exact hd
      · exact ih h hc

/-- A text that ends with no blank is collapsed from left to right. -/
theorem collapse_eq_squeeze (h : cs.getLast?.any isBlank = false) :
    collapse cs = squeeze true cs := by
  induction cs with
  | nil => rfl
  | cons c cs ih =>
    cases cs with
    | nil =>
      have hc : isBlank c = false := by simpa using h
      rw [squeeze_cons hc, collapse, words, if_neg (Bool.eq_false_iff.1 hc)]
      rfl
    | cons d cs =>
      rw [List.getLast?_cons_cons] at h
      have ih := ih h
      cases hc : isBlank c with
      | true => rw [collapse, words_cons_blank hc, squeeze_true_cons hc, ← ih, collapse]
      | false =>
        rw [squeeze_cons hc, collapse, words, if_neg (Bool.eq_false_iff.1 hc)]
        rw [collapse] at ih
        cases hd : isBlank d with
        | false =>
          have hnext : ¬ (d :: cs).head?.all isBlank = true := by simp [hd]
          rw [squeeze_of_head (by simpa using hd) true false] at ih
          rw [if_neg hnext, ← ih]
          cases hws : words (d :: cs) with
          | nil => rfl
          | cons w ws => cases ws <;> simp [List.intercalate]
        | true =>
          have hnext : (d :: cs).head?.all isBlank = true := hd
          rw [squeeze_true_cons hd] at ih
          rw [if_pos hnext, squeeze_false_cons hd, ← ih]
          cases hws : words (d :: cs) with
          | nil =>
            -- then there is no last character to be no blank
            rw [hws] at ih
            have hall (x : Char) (hx : x ∈ d :: cs) : isBlank x = true :=
              isBlank_of_squeeze_eq_nil ((squeeze_true_cons hd cs).trans ih.symm) hx
            rw [List.getLast?_eq_some_getLast (List.cons_ne_nil d cs), Option.any_some,
              hall _ (List.getLast_mem _)] at h
            cases h
          | cons w ws => simp [List.intercalate]

end CssPruning.Text
