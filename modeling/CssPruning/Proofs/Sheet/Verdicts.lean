import CssPruning.Proofs.Sheet.Deletion

/-!
# What a pass asks and answers

The verdicts of a pass are the at-rules of the sheet with the answers of the test,
but for what is inside of a rejected at-rule (`Node.allVerdicts`,
`Node.sheet_prune_eq`).  The at-rules that are left are those of the accepting
verdicts, in order (`Node.allAtRules_allKept`).

A pass whose test accepts every at-rule of a sheet leaves the sheet alone
(`Node.allKept_eq_self`), and its verdicts are those at-rules.  So what a second
pass with the same test finds can be read off the verdicts of the first
(`Node.allVerdicts_allKept`).
-/

set_option autoImplicit false

namespace CssPruning

/-- The verdict on what a pass has left of an at-rule that it accepts again. -/
def Verdict.again (keep : AtRule → Bool) (v : Verdict) : Verdict := ⟨v.rule.withKept keep, true⟩

namespace Node

/-! ## The verdicts of a pass -/

mutual

/-- What a pass asks about the at-rules of a node, and its answers. -/
def verdicts (keep : AtRule → Bool) : Node → List Verdict
  | atRule name prelude none => [⟨⟨name, prelude, none⟩, keep ⟨name, prelude, none⟩⟩]
  | atRule name prelude (some children) =>
    ⟨⟨name, prelude, some children⟩, keep ⟨name, prelude, some children⟩⟩ ::
      if keep ⟨name, prelude, some children⟩ then allVerdicts keep children else []
  | rule _ children => allVerdicts keep children
  | declaration _ | comment _ | raw _ => []
termination_by structural n => n

/-- What a pass asks about the at-rules of some nodes in a row. -/
def allVerdicts (keep : AtRule → Bool) : List Node → List Verdict
  | [] => []
  | n :: ns => verdicts keep n ++ allVerdicts keep ns
termination_by structural ns => ns

end

section

variable {keep : AtRule → Bool}

/-- A judge that answers what a test does, and whose state at any time can be told from
the verdicts up to then, ends up in the state that all verdicts tell. -/
theorem retainAllWith_books {σ : Type} {judge : AtRule → σ → Bool × σ}
    {books : List Verdict → σ}
    (h : ∀ r vs, judge r (books vs) = (keep r, books (vs ++ [⟨r, keep r⟩]))) (ns : List Node)
    (vs : List Verdict) :
    retainAllWith judge ns (books vs) = (allKept keep ns, books (vs ++ allVerdicts keep ns)) := by
  induction ns using rowInduction generalizing vs with
  | nil => simp [retainAllWith, allKept, allVerdicts]
  | rule selector children ns ihc ih =>
    simp [retainAllWith, retainWith, allKept, kept, allVerdicts, verdicts, ihc, ih]
  | statement name prelude ns ih =>
    simp [retainAllWith, retainWith, allKept, kept, allVerdicts, verdicts, h, ih]
  | block name prelude children ns ihc ih =>
    simp only [retainAllWith, retainWith, allKept, kept, allVerdicts, verdicts, h]
    split <;> simp [ihc, ih]
  | declaration d ns ih =>
    simp [retainAllWith, retainWith, allKept, kept, allVerdicts, verdicts, ih]
  | comment text ns ih =>
    simp [retainAllWith, retainWith, allKept, kept, allVerdicts, verdicts, ih]
  | raw text ns ih => simp [retainAllWith, retainWith, allKept, kept, allVerdicts, verdicts, ih]

/-- A pass without a state is these two functions. -/
theorem sheet_prune_eq (keep : AtRule → Bool) (sheet : Sheet) :
    sheet.prune keep = ⟨allKept keep sheet, allVerdicts keep sheet⟩ := by
  let judge (r : AtRule) (log : List Verdict) : Bool × List Verdict :=
    (keep r, ⟨r, keep r⟩ :: log)
  -- its judge writes the verdicts down, the last one in front
  have hjudge : ∀ (r : AtRule) (vs : List Verdict),
      judge r vs.reverse = (keep r, List.reverse (vs ++ [⟨r, keep r⟩])) := by
    intro r vs
    rw [List.reverse_append]
    rfl
  have hlog : retainAllWith judge sheet [] =
      (allKept keep sheet, (allVerdicts keep sheet).reverse) :=
    @retainAllWith_books keep _ judge List.reverse hjudge sheet []
  have hprune : sheet.prune keep =
      ⟨(retainAllWith judge sheet []).1, (retainAllWith judge sheet []).2.reverse⟩ := rfl
  rw [hprune, hlog, List.reverse_reverse]

/-- The answer is that of the test. -/
theorem kept_of_mem_allVerdicts {ns : List Node} {v : Verdict} (h : v ∈ allVerdicts keep ns) :
    v.kept = keep v.rule := by
  induction ns using rowInduction with
  | nil => cases h
  | rule selector children ns ihc ih =>
    simp only [allVerdicts, verdicts, List.mem_append] at h
    exact h.elim ihc ih
  | statement name prelude ns ih =>
    simp only [allVerdicts, verdicts, List.singleton_append, List.mem_cons] at h
    rcases h with rfl | h
    · rfl
    · exact ih h
  | block name prelude children ns ihc ih =>
    simp only [allVerdicts, verdicts, List.cons_append, List.mem_cons, List.mem_append] at h
    rcases h with rfl | h | h
    · rfl
    · split at h
      · exact ihc h
      · cases h
    · exact ih h
  | declaration d ns ih => exact ih h
  | comment text ns ih => exact ih h
  | raw text ns ih => exact ih h

/-- The at-rules that are left are the accepted ones, with what is left inside of
them. -/
theorem allAtRules_allKept (ns : List Node) :
    allAtRules (allKept keep ns) =
      ((allVerdicts keep ns).filter (·.kept)).map fun v => v.rule.withKept keep := by
  induction ns using rowInduction with
  | nil => rfl
  | rule selector children ns ihc ih =>
    simp [allKept, kept, allVerdicts, verdicts, allAtRules, atRules, ihc, ih]
  | statement name prelude ns ih =>
    simp only [allKept, kept, allVerdicts, verdicts]
    cases hk : keep ⟨name, prelude, none⟩ <;>
      simp [allAtRules, atRules, AtRule.withKept, ih]
  | block name prelude children ns ihc ih =>
    simp only [allKept, kept, allVerdicts, verdicts]
    cases hk : keep ⟨name, prelude, some children⟩ <;>
      simp [allAtRules, atRules, AtRule.withKept, ihc, ih]
  | declaration d ns ih =>
    simpa [allKept, kept, allVerdicts, verdicts, allAtRules, atRules] using ih
  | comment text ns ih =>
    simpa [allKept, kept, allVerdicts, verdicts, allAtRules, atRules] using ih
  | raw text ns ih =>
    simpa [allKept, kept, allVerdicts, verdicts, allAtRules, atRules] using ih

/-! ## Passes that reject nothing -/

/-- A pass that accepts every at-rule of a row leaves the row alone. -/
theorem allKept_eq_self {ns : List Node} (h : ∀ r ∈ allAtRules ns, keep r = true) :
    allKept keep ns = ns := by
  induction ns using rowInduction with
  | nil => rfl
  | rule selector children ns ihc ih =>
    simp only [allAtRules, atRules, List.forall_mem_append] at h
    simp [allKept, kept, ihc h.1, ih h.2]
  | statement name prelude ns ih =>
    simp only [allAtRules, atRules, List.singleton_append, List.forall_mem_cons] at h
    simp [allKept, kept, h.1, ih h.2]
  | block name prelude children ns ihc ih =>
    simp only [allAtRules, atRules, List.cons_append, List.forall_mem_cons,
      List.forall_mem_append] at h
    simp [allKept, kept, h.1, ihc h.2.1, ih h.2.2]
  | declaration d ns ih => simpa [allKept, kept] using ih h
  | comment text ns ih => simpa [allKept, kept] using ih h
  | raw text ns ih => simpa [allKept, kept] using ih h

/-- A pass that accepts every at-rule of a row asks about every one of them. -/
theorem allVerdicts_of_forall {ns : List Node} (h : ∀ r ∈ allAtRules ns, keep r = true) :
    allVerdicts keep ns = (allAtRules ns).map fun r => ⟨r, true⟩ := by
  induction ns using rowInduction with
  | nil => rfl
  | rule selector children ns ihc ih =>
    simp only [allAtRules, atRules, List.forall_mem_append] at h
    simp [allVerdicts, verdicts, allAtRules, atRules, ihc h.1, ih h.2]
  | statement name prelude ns ih =>
    simp only [allAtRules, atRules, List.singleton_append, List.forall_mem_cons] at h
    simp [allVerdicts, verdicts, allAtRules, atRules, h.1, ih h.2]
  | block name prelude children ns ihc ih =>
    simp only [allAtRules, atRules, List.cons_append, List.forall_mem_cons,
      List.forall_mem_append] at h
    simp [allVerdicts, verdicts, allAtRules, atRules, h.1, ihc h.2.1, ih h.2.2]
  | declaration d ns ih => simpa [allVerdicts, verdicts, allAtRules, atRules] using ih h
  | comment text ns ih => simpa [allVerdicts, verdicts, allAtRules, atRules] using ih h
  | raw text ns ih => simpa [allVerdicts, verdicts, allAtRules, atRules] using ih h

/-! ## The same pass again -/

/-- A test that looks at nothing a pass takes away accepts all that its own pass
leaves. -/
theorem keep_of_mem_allAtRules_allKept (h : ∀ r, keep (r.withKept keep) = keep r)
    {ns : List Node} {r : AtRule} (hr : r ∈ allAtRules (allKept keep ns)) : keep r = true := by
  obtain ⟨r₀, hr₀, rfl⟩ := mem_allAtRules_allKept hr
  rw [h, hr₀]

/-- The second pass asks about what the first accepted, and accepts it again. -/
theorem allVerdicts_allKept (h : ∀ r, keep (r.withKept keep) = keep r) (ns : List Node) :
    allVerdicts keep (allKept keep ns) =
      ((allVerdicts keep ns).filter (·.kept)).map (Verdict.again keep) := by
  rw [allVerdicts_of_forall fun r hr => keep_of_mem_allAtRules_allKept h hr, allAtRules_allKept,
    List.map_map]
  rfl

end

end Node

end CssPruning
