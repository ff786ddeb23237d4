import CssPruning.Font.Face
import CssPruning.Media.Pruning
import CssPruning.Proofs.Sheet.Deletion
import Mathlib.Tactic.ByContra

/-!
# Which at-rules the passes reject

The two passes over at-rules are judged by tests; here is what the tests reject,
said without them: `Media.Unneeded` for media rules and `Font.Useless` for font
faces.  Neither looks at anything of a block but its declarations, so that a
verdict is the same whether or not some at-rules inside have been taken away.
-/

set_option autoImplicit false

namespace CssPruning

namespace Media

/-- A media rule with a prelude that is relevant for none of the targets. -/
def Unneeded (targets : List Target) (r : AtRule) : Prop :=
  r.isMedia = true ∧ ∃ prelude, r.preludeText = some prelude ∧
    ∀ t ∈ targets, relevantText (AtRule.canonicalPrelude prelude) t = false

theorem survives_iff {targets : List Target} {r : AtRule} :
    survives targets r = true ↔ ¬ Unneeded targets r := by
  unfold survives judgedQuery Unneeded
  cases hm : r.isMedia with
  | false => simp
  | true =>
    cases hp : r.preludeText with
    | none => simp
    | some prelude => simp [relevantForAny]

/-- A media rule with a prelude is judged: it survives for a target that needs it. -/
theorem exists_relevant_of_survives {targets : List Target} {r : AtRule} {prelude : String}
    (h : survives targets r = true) (hm : r.isMedia = true)
    (hp : r.preludeText = some prelude) :
    ∃ t ∈ targets, relevantText (AtRule.canonicalPrelude prelude) t = true := by
  rw [survives_iff] at h
  by_contra hnone
  apply h
  refine ⟨hm, prelude, hp, ?_⟩
  intro t ht
  by_contra hrel
  exact hnone ⟨t, ht, by simpa using hrel⟩

/-- The verdict on a media rule does not hang on its block. -/
@[simp] theorem survives_withKept (targets : List Target) (keep : AtRule → Bool) (r : AtRule) :
    survives targets (r.withKept keep) = survives targets r := rfl

end Media

namespace Font

/-- A font face without a source, or with a declared family that names nothing or
whose first name is not in use. -/
def Useless (used : NameSet) (vs : Variables) (r : AtRule) : Prop :=
  r.isFontFace = true ∧
    ((∀ d ∈ r.declarations, d.propertyName ≠ "src") ∨
      ∃ d ∈ r.declarations, d.propertyName = "font-family" ∧
        ∀ name, (names vs d.value).head? = some name → Text.lower name ∉ used)

variable {used : NameSet} {vs : Variables}

theorem hasSource_iff {r : AtRule} :
    hasSource r = true ↔ ∃ d ∈ r.declarations, d.propertyName = "src" := by
  simp [hasSource]

theorem isUsed_iff {r : AtRule} :
    isUsed used vs r = true ↔ ∀ d ∈ r.declarations, d.propertyName = "font-family" →
      ∃ name, (names vs d.value).head? = some name ∧ Text.lower name ∈ used := by
  simp only [isUsed, families, familyValues, firstFamily, List.map_map, List.all_map,
    List.all_eq_true, List.mem_filter, beq_iff_eq, Function.comp_apply, Option.any_map,
    Option.any_eq_true, List.contains_iff_mem, and_imp]

theorem survives_iff_of_isFontFace {r : AtRule} (h : r.isFontFace = true) :
    survives used vs r = true ↔ isUsed used vs r = true ∧ hasSource r = true := by
  unfold survives dropReason
  cases hu : isUsed used vs r <;> cases hs : hasSource r <;> simp [h]

theorem survives_of_not_isFontFace {r : AtRule} (h : r.isFontFace = false) :
    survives used vs r = true := by
  simp [survives, h]

theorem survives_iff {r : AtRule} : survives used vs r = true ↔ ¬ Useless used vs r := by
  cases hf : r.isFontFace with
  | false => simp [survives_of_not_isFontFace hf, Useless, hf]
  | true =>
    rw [survives_iff_of_isFontFace hf, isUsed_iff, hasSource_iff]
    unfold Useless
    constructor
    · rintro ⟨hused, d, hd, hsrc⟩ ⟨-, hno | ⟨d', hd', hfam, hno⟩⟩
      · exact hno d hd hsrc
      · obtain ⟨name, hname, hmem⟩ := hused d' hd' hfam
        exact hno name hname hmem
    · intro h
      simp only [hf, true_and, not_or, not_forall, not_exists, not_and, not_not] at h
      obtain ⟨⟨d, hd, hsrc⟩, hused⟩ := h
      refine ⟨?_, d, hd, hsrc⟩
      intro d' hd' hfam
      obtain ⟨name, hname, hmem⟩ := hused d' hd' hfam
      exact ⟨name, hname, hmem⟩

/-- The verdict on a font face hangs on nothing of its block but the declarations. -/
@[simp] theorem survives_withKept (keep : AtRule → Bool) (r : AtRule) :
    survives used vs (r.withKept keep) = survives used vs r := by
  have hf : (r.withKept keep).isFontFace = r.isFontFace := rfl
  have hu : isUsed used vs (r.withKept keep) = isUsed used vs r := by
    simp only [isUsed, families, familyValues, AtRule.declarations_withKept]
  have hs : hasSource (r.withKept keep) = hasSource r := by
    simp only [hasSource, AtRule.declarations_withKept]
  rw [survives, survives, dropReason, dropReason, hf, hu, hs]

end Font

end CssPruning
