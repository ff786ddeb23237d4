import CssPruning.Proofs.Font.FirstSeen

/-!
# The table of variables

A variable that is given some values stands for what it stood for and for them, and the
others stay what they are (`Variables.get_record`).  So after any calls a variable stands
for all values of its own calls, in their order, where they are first seen and not empty
(`Variables.get_recordAll_of_mem`), and the table has one entry for each variable given
(`Variables.keys_recordAll`).
-/

set_option autoImplicit false

namespace CssPruning.Font

namespace Variables

/-! ## One call -/

theorem mem_extend {names values : List String} {x : String} :
    x ∈ extend names values ↔ x ∈ names ∨ (x ∈ values ∧ x ≠ "") := by
  rw [extend, NameSet.mem_addAll, List.mem_filter, bne_iff_ne]

theorem lookup_cons (m n : String) (xs : List String) (es : List (String × List String)) :
    ((m, xs) :: es).lookup n = if n = m then some xs else es.lookup n := by
  rw [List.lookup_cons]
  by_cases hn : n = m
  · rw [if_pos hn, hn, beq_self_eq_true]
  · rw [if_neg hn, beq_false_of_ne hn]

theorem lookup_recordIn (name n : String) (values : List String)
    (es : List (String × List String)) :
    (recordIn name values es).lookup n =
      if n = name then some (extend ((es.lookup name).getD []) values) else es.lookup n := by
  induction es with
  | nil => exact lookup_cons name n _ []
  | cons e es ih =>
    obtain ⟨m, xs⟩ := e
    rw [recordIn, lookup_cons m name, lookup_cons m n]
    by_cases hm : m = name
    · subst hm
      rw [if_pos rfl, if_pos rfl, lookup_cons]
      by_cases hn : n = m
      · rw [if_pos hn, if_pos hn]
        rfl
      · rw [if_neg hn, if_neg hn, if_neg hn]
    · rw [if_neg hm, if_neg (Ne.symm hm), lookup_cons, ih]
      by_cases hn : n = m
      · rw [if_pos hn, if_neg (hn ▸ hm), if_pos hn]
      · rw [if_neg hn, if_neg hn]

/-- A variable that has been given some values stands for what it stood for and for
them; the others stand for what they stood for. -/
theorem get_record (vs : Variables) (name n : String) (values : List String) :
    (vs.record name values).get n =
      if n = name then some (extend ((vs.get name).getD []) values) else vs.get n :=
  lookup_recordIn name n values vs.entries

/-- The variables of the table, in the order in which they were first given. -/
def keys (vs : Variables) : NameSet := vs.entries.map Prod.fst

theorem keys_recordIn (name : String) (values : List String)
    (es : List (String × List String)) :
    (recordIn name values es).map Prod.fst = NameSet.insert (es.map Prod.fst) name := by
  induction es with
  | nil => rfl
  | cons e es ih =>
    obtain ⟨n, xs⟩ := e
    rw [recordIn]
    by_cases hn : n = name
    · subst hn
      rw [if_pos rfl, List.map_cons, List.map_cons, NameSet.insert_of_mem List.mem_cons_self]
    · rw [if_neg hn, List.map_cons, List.map_cons, ih]
      by_cases hmem : name ∈ es.map Prod.fst
      · rw [NameSet.insert_of_mem hmem, NameSet.insert_of_mem (List.mem_cons_of_mem n hmem)]
      · rw [NameSet.insert_of_not_mem hmem, NameSet.insert_of_not_mem, List.cons_append]
        rw [List.mem_cons, not_or]
        exact ⟨Ne.symm hn, hmem⟩

/-- A call adds its variable to those of the table. -/
theorem keys_record (vs : Variables) (name : String) (values : List String) :
    (vs.record name values).keys = vs.keys.insert name :=
  keys_recordIn name values vs.entries

theorem extend_extend (xs values values' : List String) :
    extend (extend xs values) values' = extend xs (values ++ values') := by
  rw [extend, extend, extend, List.filter_append, NameSet.addAll_append]

/-! ## Calls in a row -/

/-- The table after some calls. -/
def recordAll (vs : Variables) (calls : List (String × List String)) : Variables :=
  calls.foldl (fun vs call => vs.record call.1 call.2) vs

/-- The values that some calls give to a variable, in order. -/
def given (name : String) (calls : List (String × List String)) : List String :=
  (calls.filter fun call => call.1 == name).flatMap Prod.snd

theorem recordAll_cons (vs : Variables) (call : String × List String)
    (calls : List (String × List String)) :
    vs.recordAll (call :: calls) = (vs.record call.1 call.2).recordAll calls :=
  rfl

theorem keys_recordAll (vs : Variables) (calls : List (String × List String)) :
    (vs.recordAll calls).keys = vs.keys.addAll (calls.map Prod.fst) := by
  induction calls generalizing vs with
  | nil => rfl
  | cons call calls ih =>
    rw [recordAll_cons, ih, keys_record, List.map_cons, NameSet.addAll_cons]

/-- A variable that no call gives stays what it is. -/
theorem get_recordAll_of_not_mem (vs : Variables) {name : String}
    {calls : List (String × List String)} (h : name ∉ calls.map Prod.fst) :
    (vs.recordAll calls).get name = vs.get name := by
  induction calls generalizing vs with
  | nil => rfl
  | cons call calls ih =>
    rw [List.map_cons, List.mem_cons, not_or] at h
    rw [recordAll_cons, ih _ h.2, get_record, if_neg h.1]

theorem given_cons_of_eq {name : String} {call : String × List String} (h : call.1 = name)
    (calls : List (String × List String)) :
    given name (call :: calls) = call.2 ++ given name calls := by
  rw [given, List.filter_cons, if_pos (beq_iff_eq.2 h), List.flatMap_cons]
  rfl

theorem given_cons_of_ne {name : String} {call : String × List String} (h : call.1 ≠ name)
    (calls : List (String × List String)) : given name (call :: calls) = given name calls := by
  rw [given, List.filter_cons, if_neg (mt beq_iff_eq.1 h)]
  rfl

theorem given_eq_nil {name : String} {calls : List (String × List String)}
    (h : name ∉ calls.map Prod.fst) : given name calls = [] := by
  have hnone : (calls.filter fun call => call.1 == name) = [] := by
    rw [List.filter_eq_nil_iff]
    intro call hcall hname
    exact h (List.mem_map.2 ⟨call, hcall, beq_iff_eq.1 hname⟩)
  rw [given, hnone, List.flatMap_nil]

/-- A variable that some call gives stands for what it stood for, and for all that the
calls give it. -/
theorem get_recordAll_of_mem (vs : Variables) {name : String}
    {calls : List (String × List String)} (h : name ∈ calls.map Prod.fst) :
    (vs.recordAll calls).get name =
      some (extend ((vs.get name).getD []) (given name calls)) := by
  induction calls generalizing vs with
  | nil => cases h
  | cons call calls ih =>
    rw [recordAll_cons]
    by_cases hname : name = call.1
    · have hget : (vs.record call.1 call.2).get name =
          some (extend ((vs.get name).getD []) call.2) := by
        rw [get_record, if_pos hname, hname]
      rw [given_cons_of_eq hname.symm, ← extend_extend]
      by_cases hmem : name ∈ calls.map Prod.fst
      · rw [ih _ hmem, hget, Option.getD_some]
      · rw [get_recordAll_of_not_mem _ hmem, hget, given_eq_nil hmem]
        rfl
    · have hmem : name ∈ calls.map Prod.fst := (List.mem_cons.1 h).resolve_left hname
      rw [ih _ hmem, get_record, if_neg hname, given_cons_of_ne (Ne.symm hname)]

/-! ## What a table holds -/

/-- The table holds what some calls have given. -/
structure Holds (vs : Variables) (calls : List (String × List String)) : Prop where
  get_eq_none_iff : ∀ name, vs.get name = none ↔ name ∉ calls.map Prod.fst
  /-- the values of the calls of the variable in order, each where it is first seen -/
  get_eq_some : ∀ name ∈ calls.map Prod.fst,
    vs.get name = some ((given name calls).filter (· != "")).eraseDups
  contains_iff : ∀ name, vs.contains name = true ↔ name ∈ calls.map Prod.fst
  size_eq : vs.size = (calls.map Prod.fst).eraseDups.length
  isEmpty_iff : vs.isEmpty = true ↔ calls = []

/-- After any calls the new table holds what they have given, and one more call changes
no entry but its own. -/
theorem holds_recordAll (calls : List (String × List String)) :
    (empty.recordAll calls).Holds calls ∧
      ∀ (vs : Variables) (name other : String) (values : List String), other ≠ name →
        (vs.record name values).get other = vs.get other := by
  have hmem (name : String) (h : name ∈ calls.map Prod.fst) :
      (empty.recordAll calls).get name =
        some ((given name calls).filter (· != "")).eraseDups := by
    rw [get_recordAll_of_mem empty h, ← NameSet.addAll_nil_eq_eraseDups]
    rfl
  have hnone (name : String) :
      (empty.recordAll calls).get name = none ↔ name ∉ calls.map Prod.fst := by
    refine ⟨fun h hname => ?_, fun h => get_recordAll_of_not_mem empty h⟩
    rw [hmem name hname] at h
    cases h
  have hkeys : (empty.recordAll calls).keys = (calls.map Prod.fst).eraseDups := by
    rw [keys_recordAll, ← NameSet.addAll_nil_eq_eraseDups]
    rfl
  refine ⟨⟨hnone, hmem, fun name => ?_, ?_, ?_⟩, fun vs name other values hother => ?_⟩
  · rw [contains, Option.isSome_iff_ne_none, Ne, hnone, Classical.not_not]
  · rw [← hkeys, keys, List.length_map]
    rfl
  · have hentries : (empty.recordAll calls).isEmpty = true ↔
        (empty.recordAll calls).keys = [] := by
      rw [isEmpty, List.isEmpty_iff, keys, List.map_eq_nil_iff]
    rw [hentries, hkeys]
    cases calls with
    | nil => exact iff_of_true rfl rfl
    | cons call calls =>
      rw [List.map_cons, List.eraseDups_cons]
      exact iff_of_false (List.cons_ne_nil _ _) (List.cons_ne_nil _ _)
  · rw [get_record, if_neg hother]

/-- A value that is given again is not repeated, a variable given nothing is there, and what
it is given later is its own. -/
theorem get_recordAll_givenTwice :
    let calls := [("--f", ["A"]), ("--g", []), ("--f", ["", "B", "A"])]
    let vs := empty.recordAll calls
    "--f" ∈ calls.map Prod.fst ∧ vs.get "--f" = some ["A", "B"] ∧ vs.get "--g" = some [] ∧
      vs.size = 2 ∧ "--f" ≠ "--g" ∧ (vs.record "--g" ["C"]).get "--f" = vs.get "--f" := by
  intro calls vs
  obtain ⟨h, hother⟩ := holds_recordAll calls
  exact ⟨by decide, (h.get_eq_some "--f" (by decide)).trans (by decide),
    (h.get_eq_some "--g" (by decide)).trans (by decide), h.size_eq.trans (by decide),
    by decide, hother vs "--g" "--f" ["C"] (by decide)⟩

end Variables

end CssPruning.Font
