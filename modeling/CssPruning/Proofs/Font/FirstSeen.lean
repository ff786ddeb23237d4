import CssPruning.Font.Variables

/-!
# Names where they are first seen

To add some names to a set is to put behind it those that it has not, each where it is
first seen (`NameSet.addAll_eq`); what the empty set becomes is the row without
repetitions (`NameSet.addAll_nil_eq_eraseDups`).
-/

set_option autoImplicit false

namespace CssPruning.Font

namespace NameSet

theorem addAll_cons (s : NameSet) (x : String) (xs : List String) :
    s.addAll (x :: xs) = (s.insert x).addAll xs :=
  rfl

theorem addAll_append (s : NameSet) (xs ys : List String) :
    s.addAll (xs ++ ys) = (s.addAll xs).addAll ys :=
  List.foldl_append

theorem insert_of_mem {s : NameSet} {x : String} (h : x ∈ s) : s.insert x = s :=
  if_pos (List.contains_iff_mem.2 h)

theorem insert_of_not_mem {s : NameSet} {x : String} (h : x ∉ s) : s.insert x = s ++ [x] :=
  if_neg fun hx => h (List.contains_iff_mem.1 hx)

/-- To add some names is to put behind a set those among them that it has not, each once. -/
theorem addAll_eq (s : NameSet) (xs : List String) :
    s.addAll xs = s ++ (addAll [] xs).filter fun x => !s.contains x := by
  induction xs generalizing s with
  | nil => exact (List.append_nil s).symm
  | cons x xs ih =>
    have hfirst : addAll [] (x :: xs) = [x] ++ (addAll [] xs).filter fun y => !List.contains [x] y :=
      ih [x]
    rw [addAll_cons, hfirst, ih, List.filter_append, List.filter_filter]
    by_cases hx : x ∈ s
    · -- the first name is there already, so it does not count for the others either
      have hhead : [x].filter (fun y => !s.contains y) = [] := by simp [hx]
      rw [insert_of_mem hx, hhead, List.nil_append]
      refine congrArg (s ++ ·) (List.filter_congr fun y _ => ?_)
      by_cases hy : y = x
      · simp [hy, hx]
      · simp [hy]
    · have hhead : [x].filter (fun y => !s.contains y) = [x] := by simp [hx]
      rw [insert_of_not_mem hx, hhead, List.append_assoc]
      refine congrArg (fun ys => s ++ ([x] ++ ys)) (List.filter_congr fun y _ => ?_)
      simp

theorem addAll_congr {xs ys : List String} (h : addAll [] xs = addAll [] ys) (s : NameSet) :
    s.addAll xs = s.addAll ys := by
  rw [addAll_eq, h, ← addAll_eq]

theorem filter_insert (p : String → Bool) (s : NameSet) (x : String) :
    (s.insert x).filter p = if p x then insert (s.filter p) x else s.filter p := by
  by_cases hx : x ∈ s
  · rw [insert_of_mem hx]
    split
    · rename_i hp
      rw [insert_of_mem (List.mem_filter.2 ⟨hx, hp⟩)]
    · rfl
  · rw [insert_of_not_mem hx, List.filter_append]
    split
    · rename_i hp
      rw [insert_of_not_mem fun h => hx (List.mem_filter.1 h).1, List.filter_cons_of_pos hp]
      rfl
    · rename_i hp
      rw [List.filter_cons_of_neg hp, List.filter_nil, List.append_nil]

/-- Names may be left out before they are added or afterwards. -/
theorem filter_addAll (p : String → Bool) (s : NameSet) (xs : List String) :
    (s.addAll xs).filter p = addAll (s.filter p) (xs.filter p) := by
  induction xs generalizing s with
  | nil => rfl
  | cons x xs ih =>
    rw [addAll_cons, ih, filter_insert, List.filter_cons]
    split <;> rfl

theorem head?_addAll (xs : List String) : (addAll [] xs).head? = xs.head? := by
  cases xs with
  | nil => rfl
  | cons x xs =>
    rw [addAll_cons, addAll_eq]
    rfl

/-- The empty set becomes the names, each where it is first seen. -/
theorem addAll_nil_eq_eraseDups (xs : List String) : addAll [] xs = xs.eraseDups := by
  match xs with
  | [] => rfl
  | x :: xs =>
    have hothers : (addAll [] xs).filter (fun y => !List.contains [x] y) =
        addAll [] (xs.filter fun y => !y == x) := by
      have hx : (fun y => !List.contains [x] y) = fun y => !y == x := by
        funext y
        rw [List.contains_cons, List.contains_nil, Bool.or_false]
      rw [hx, filter_addAll, List.filter_nil]
    calc addAll [] (x :: xs) = [x] ++ (addAll [] xs).filter fun y => !List.contains [x] y :=
          addAll_eq [x] xs
      _ = (x :: xs).eraseDups := by
          rw [hothers, addAll_nil_eq_eraseDups, List.eraseDups_cons, List.singleton_append]
termination_by xs.length
decreasing_by exact Nat.lt_succ_of_le (List.length_filter_le _ _)

end NameSet

end CssPruning.Font
