import CssPruning.Proofs.Media.KeepBias
import Mathlib.Data.List.Basic
import Mathlib.Tactic.Tauto

/-!
# Features without an answer

A target answers seven features.  A condition on any other fails for every target, with
a bound or without, whatever its value.  Relevance keeps what it does not judge, but it
judges each minimum by itself, and so it drops

    (min-resolution: 2dppx)

for every target: the failing condition counts like that of a screen which is too small.
`Query.Spared` says which queries are kept whose features all have no answer; among
those with one condition it leaves out the minimums that are not negated
(`relevantText_iff_of_unanswered`).
-/

set_option autoImplicit false

namespace CssPruning.Media

/-- The features that a target answers. -/
def answeredFeatures : List String :=
  ["width", "height", "device-width", "device-height", "aspect-ratio", "device-aspect-ratio",
    "orientation"]

theorem answer_eq_none {feature : String} (h : feature ∉ answeredFeatures) (t : Target) :
    answer feature t = none := by
  unfold answer
  split
  all_goals first
    | rfl
    | exact absurd (by decide) h

namespace Query

variable {q : Query} {t : Target}

/-- No target has an answer to any of the query's conditions, of which there are some. -/
structure Unanswered (q : Query) : Prop where
  conditions_ne_nil : q.conditions ≠ []
  not_mem : ∀ c ∈ q.conditions, c.feature ∉ answeredFeatures

theorem Unanswered.holds_eq_false (h : q.Unanswered) {c : Condition} (hc : c ∈ q.conditions)
    (t : Target) : c.holds t = false := by
  rw [Condition.holds, answer_eq_none (h.not_mem c hc)]

/-- The query asks for the opposite, or it has a condition that is no minimum and is not judged:
it is the only one, or all of them are about the density of pixels. -/
def Spared (q : Query) : Prop :=
  q.inverse = true ∨ (∃ c ∈ q.conditions, c.bound ≠ some .min) ∧
    (q.conditions.length = 1 ∨ ∀ c ∈ q.conditions, c.isDensity = true)

/-- A chain of conditions without an answer fails, unless nothing of it is judged. -/
theorem Unanswered.chainRelevant_iff (h : q.Unanswered) {negated : Bool} :
    chainRelevant q.conditions negated t = true ↔
      negated = true ∨ ∀ c ∈ q.conditions, c.isDensity = true := by
  have hmet : (∀ c ∈ q.conditions, c.isDensity = false → c.holds t = true) ↔
      ∀ c ∈ q.conditions, c.isDensity = true := by
    refine ⟨fun hall c hc => ?_, fun hall c hc hdense => ?_⟩
    · by_contra hdense
      have hholds := hall c hc (by simpa using hdense)
      rw [h.holds_eq_false hc] at hholds
      cases hholds
    · rw [hall c hc] at hdense
      cases hdense
  have hconsidered : (∃ c ∈ q.conditions, c.isDensity = false) ↔
      ¬ ∀ c ∈ q.conditions, c.isDensity = true := by
    simp
  rw [← Bool.not_eq_false, chainRelevant_eq_false_iff, hmet, hconsidered]
  tauto

/-- What one condition without an answer says for keeping the query. -/
theorem Unanswered.conditionRelevant_iff (h : q.Unanswered) {c : Condition}
    (hc : c ∈ q.conditions) : q.conditionRelevant t c = true ↔
      q.inverse = true ∨ c.bound ≠ some .min ∧
        (q.conditions.length = 1 ∨ ∀ c ∈ q.conditions, c.isDensity = true) := by
  have hlength : 0 < q.conditions.length := List.length_pos_of_mem hc
  unfold conditionRelevant
  split
  · rename_i hmin
    simp [matchesTarget_ofConditions, h.holds_eq_false hc, eq_of_beq hmin]
  · rename_i hmin
    have hmin : c.bound ≠ some .min := by simpa using hmin
    split
    · rename_i hchain
      have hlength : q.conditions.length ≠ 1 := by omega
      rw [h.chainRelevant_iff]
      tauto
    · have hlength : q.conditions.length = 1 := by omega
      tauto

theorem Unanswered.relevant_iff (h : q.Unanswered) : q.relevant t = true ↔ q.Spared := by
  obtain ⟨c, hc⟩ := List.exists_mem_of_ne_nil _ h.conditions_ne_nil
  rw [relevant, if_neg (by simpa using h.conditions_ne_nil), List.any_eq_true, Spared]
  constructor
  · rintro ⟨c, hc, hrelevant⟩
    exact ((h.conditionRelevant_iff hc).1 hrelevant).imp id fun hmax => ⟨⟨c, hc, hmax.1⟩, hmax.2⟩
  · rintro (hinverse | ⟨⟨c, hc, hmax⟩, hjudged⟩)
    · exact ⟨c, hc, (h.conditionRelevant_iff hc).2 (.inl hinverse)⟩
    · exact ⟨c, hc, (h.conditionRelevant_iff hc).2 (.inr ⟨hmax, hjudged⟩)⟩

/-- One condition without an answer is dropped if it is a minimum that is not negated. -/
theorem spared_iff_of_conditions_eq {c : Condition} (h : q.conditions = [c]) :
    q.Spared ↔ (c.bound = some .min → q.inverse = true) := by
  simp only [Spared, h, List.mem_singleton, exists_eq_left, List.length_singleton, true_or,
    and_true]
  tauto

end Query

/-- A list of queries on features without an answer is relevant for a target, and so for each
other target, if and only if one of its queries is spared.  With one condition a query is
spared unless the condition is a minimum, and if the opposite is asked for even then. -/
theorem relevantText_iff_of_unanswered {text : String} {qs : List Query}
    (hparse : parseList text = .ok qs) (h : ∀ q ∈ qs, q.Unanswered) (t : Target) :
    (relevantText text t = true ↔ ∃ q ∈ qs, q.Spared) ∧
      ∀ q c, qs = [q] → q.conditions = [c] →
        (relevantText text t = true ↔ (c.bound = some .min → q.inverse = true)) := by
  have hrelevant : relevantText text t = true ↔ ∃ q ∈ qs, q.Spared := by
    rw [relevantText, hparse]
    simp only [List.any_eq_true]
    exact exists_congr fun q => and_congr_right fun hq => (h q hq).relevant_iff
  refine ⟨hrelevant, ?_⟩
  rintro q c rfl hc
  rw [hrelevant, ← Query.spared_iff_of_conditions_eq hc]
  simp

theorem relevantText_colorOrResolution :
    parseList "(min-color: 8), not all and (min-resolution: 2dppx)" =
        .ok [⟨false, "all", [⟨some .min, "color", some "8"⟩]⟩,
          ⟨true, "all", [⟨some .min, "resolution", some "2dppx"⟩]⟩] ∧
      (∀ q ∈ [(⟨false, "all", [⟨some .min, "color", some "8"⟩]⟩ : Query),
        ⟨true, "all", [⟨some .min, "resolution", some "2dppx"⟩]⟩], q.Unanswered) ∧
      relevantText "(min-color: 8), not all and (min-resolution: 2dppx)" (.screen 800 600) =
        true := by
  have hparse : parseList "(min-color: 8), not all and (min-resolution: 2dppx)" =
      .ok [⟨false, "all", [⟨some .min, "color", some "8"⟩]⟩,
        ⟨true, "all", [⟨some .min, "resolution", some "2dppx"⟩]⟩] := by decide +kernel
  have hall : ∀ q ∈ [(⟨false, "all", [⟨some .min, "color", some "8"⟩]⟩ : Query),
      ⟨true, "all", [⟨some .min, "resolution", some "2dppx"⟩]⟩], q.Unanswered := by
    simp only [List.forall_mem_cons]
    exact ⟨⟨List.cons_ne_nil _ _, by simp [answeredFeatures]⟩,
      ⟨List.cons_ne_nil _ _, by simp [answeredFeatures]⟩, List.forall_mem_nil _⟩
  refine ⟨hparse, hall, (relevantText_iff_of_unanswered hparse hall _).1.2 ?_⟩
  exact ⟨_, List.mem_cons_of_mem _ List.mem_cons_self, .inl rfl⟩

/-- A minimum of the resolution, which no target answers, drops its query for a screen. -/
theorem min_resolution_is_irrelevant :
    ∃ q c, parseList "(min-resolution: 2dppx)" = .ok [q] ∧ q.negated = false ∧
      q.conditions = [c] ∧ c.feature ∉ answeredFeatures ∧
      relevantText "(min-resolution: 2dppx)" (.screen 800 600) = false := by
  have hparse : parseList "(min-resolution: 2dppx)" =
      .ok [⟨false, "all", [⟨some .min, "resolution", some "2dppx"⟩]⟩] := by decide +kernel
  refine ⟨_, _, hparse, rfl, rfl, by decide, ?_⟩
  decide +kernel

end CssPruning.Media
