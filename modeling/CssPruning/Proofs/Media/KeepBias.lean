import CssPruning.Media.Relevance
import Mathlib.Tactic.ByContra

/-!
# Where relevance is stricter than matching

Relevance is meant to keep whatever matches.  A query without `not` bears that
out (`Query.relevant_of_matchesTarget`): what is left out of it, its type and its
conditions on the density of pixels, can only make it more relevant.

Under `not` the same omission works the other way.  What is left of the query is
negated, and the negation of less is more than the negation of all:

    not print and (min-width: 500px)

matches every screen, and is irrelevant for a screen of 800 pixels, which is
judged by the width alone.  `Query.Lost` says when a query matches and is
irrelevant all the same; it is the exact condition
(`Query.matchesTarget_and_relevant_eq_false_iff`).  A list is dropped in spite of
a match if and only if one of its queries is lost and none is relevant.
-/

set_option autoImplicit false

namespace CssPruning.Media

/-! ## Conditions on the density of pixels -/

/-- A target answers seven features, none of them about the density of pixels. -/
theorem Condition.answer_eq_none {c : Condition} (h : c.isDensity = true) (t : Target) :
    answer c.feature t = none := by
  unfold answer
  -- each feature with an answer does not end in the words for the density
  split <;> first
    | rfl
    | (rename_i hf; rw [Condition.isDensity, hf] at h; exact absurd h (by decide))

theorem Condition.holds_eq_false {c : Condition} (h : c.isDensity = true) (t : Target) :
    c.holds t = false := by
  rw [Condition.holds, Condition.answer_eq_none h]

namespace Query

variable {q : Query} {t : Target}

/-! ## Parts of a query -/

/-- The query for any medium asks for its conditions alone. -/
theorem matchesTarget_ofConditions (cs : List Condition) (t : Target) :
    (ofConditions cs).matchesTarget t = cs.all (·.holds t) := by
  simp [ofConditions, matchesTarget, typeMatches]

theorem matchesTarget_iff_of_negated (h : q.negated = true) :
    q.matchesTarget t = true ↔
      (q.typeMatches t = true → ∃ c ∈ q.conditions, c.holds t = false) := by
  cases ht : q.typeMatches t <;> simp [matchesTarget, h, ht]

theorem matchesTarget_iff_of_not_negated (h : q.negated = false) :
    q.matchesTarget t = true ↔
      q.typeMatches t = true ∧ ∀ c ∈ q.conditions, c.holds t = true := by
  simp [matchesTarget, h]

/-- A query without `not` that matches has a type, so that it is not taken for one
that lost it. -/
theorem inverse_eq_false (h : q.negated = false) (ht : q.typeMatches t = true) :
    q.inverse = false := by
  unfold typeMatches at ht
  unfold inverse
  rw [h, Bool.false_or, beq_eq_false_iff_ne]
  intro hnot
  rw [hnot] at ht
  cases hm : t.medium <;> rw [hm] at ht <;> exact absurd ht (by decide)

theorem inverse_eq_true (h : q.negated = true) : q.inverse = true := by
  rw [inverse, h, Bool.true_or]

/-- A chain is irrelevant if something is left of it, and the target meets all of
that if and only if the opposite is asked for. -/
theorem chainRelevant_eq_false_iff {cs : List Condition} {negated : Bool} :
    chainRelevant cs negated t = false ↔
      (∃ c ∈ cs, c.isDensity = false) ∧
        ((∀ c ∈ cs, c.isDensity = false → c.holds t = true) ↔ negated = true) := by
  have hall : (cs.filter fun c => !c.isDensity).all (·.holds t) = true ↔
      ∀ c ∈ cs, c.isDensity = false → c.holds t = true := by
    simp only [List.all_eq_true, List.mem_filter, Bool.not_eq_true', and_imp]
  have hempty : (cs.filter fun c => !c.isDensity).isEmpty = false ↔
      ∃ c ∈ cs, c.isDensity = false := by
    simp
  rw [← hall, ← hempty]
  simp only [chainRelevant, matchesTarget_ofConditions]
  cases (cs.filter fun c => !c.isDensity).isEmpty <;>
    cases (cs.filter fun c => !c.isDensity).all (·.holds t) <;> cases negated <;> simp

/-! ## Queries without `not` -/

/-- A query without `not` is kept wherever it matches. -/
theorem relevant_of_matchesTarget (h : q.negated = false) (hm : q.matchesTarget t = true) :
    q.relevant t = true := by
  obtain ⟨ht, hall⟩ := (matchesTarget_iff_of_not_negated h).1 hm
  have hinv := inverse_eq_false h ht
  unfold relevant
  split
  case isTrue =>
    unfold bareTypeRelevant
    rw [hinv, Bool.bne_false]
    split
    · rename_i hword
      unfold typeMatches at ht
      -- the type is one of the two media, hence not the word for all of them
      cases hall : q.mediaType == "all" with
      | false => rwa [hall, Bool.false_or] at ht
      | true =>
        rw [beq_iff_eq] at hall
        rw [hall] at hword
        exact absurd hword (by decide)
    · rfl
  case isFalse hne =>
    obtain ⟨c, hc⟩ : ∃ c, c ∈ q.conditions := by
      apply List.exists_mem_of_ne_nil
      rwa [List.isEmpty_iff] at hne
    rw [List.any_eq_true]
    refine ⟨c, hc, ?_⟩
    unfold conditionRelevant
    rw [hinv, matchesTarget_ofConditions]
    have hchain : chainRelevant q.conditions false t = true := by
      by_contra hch
      rw [Bool.not_eq_true, chainRelevant_eq_false_iff] at hch
      exact absurd (hch.2.1 fun c hc _ => hall c hc) (by decide)
    split
    · simp [hall c hc]
    · split
      · exact hchain
      · rfl

/-! ## Queries that are lost -/

/-- The query matches the target, and relevance drops it all the same: what its
negation lets pass stands in the parts that relevance leaves out. -/
structure Lost (q : Query) (t : Target) : Prop where
  /-- the query asks for the opposite -/
  negated : q.negated = true
  /-- something is left of it without its type and the density of pixels -/
  considered : ∃ c ∈ q.conditions, c.isDensity = false
  /-- the target meets all of that -/
  met : ∀ c ∈ q.conditions, c.isDensity = false → c.holds t = true
  /-- no minimum is among the parts that are left out -/
  noMinimum : ∀ c ∈ q.conditions, c.isDensity = true → c.bound ≠ some .min
  /-- a single condition is judged only if it is a minimum -/
  judged : 1 < q.conditions.length ∨ ∃ c ∈ q.conditions, c.bound = some .min
  /-- the query matches through one of the parts that are left out -/
  leftOut : q.typeMatches t = false ∨ ∃ c ∈ q.conditions, c.isDensity = true

/-- Under `not` a query with conditions is irrelevant if and only if the target
meets everything that relevance looks at. -/
theorem relevant_eq_false_iff_of_negated (h : q.negated = true) (hne : q.conditions ≠ []) :
    q.relevant t = false ↔
      (∀ c ∈ q.conditions, c.bound = some .min → c.holds t = true) ∧
        ((∃ c ∈ q.conditions, c.bound ≠ some .min) →
          1 < q.conditions.length ∧ chainRelevant q.conditions true t = false) := by
  unfold relevant
  rw [if_neg (by simpa using hne), List.any_eq_false]
  constructor
  · intro hirr
    constructor
    · intro c hc hmin
      have hcr := hirr c hc
      unfold conditionRelevant at hcr
      simpa [hmin, inverse_eq_true h, matchesTarget_ofConditions] using hcr
    · rintro ⟨c, hc, hmin⟩
      have hcr := hirr c hc
      unfold conditionRelevant at hcr
      rw [if_neg (by simpa using hmin), inverse_eq_true h] at hcr
      split at hcr
      · rename_i hlen
        exact ⟨hlen, by simpa using hcr⟩
      · exact absurd rfl hcr
  · rintro ⟨hmins, hchain⟩ c hc
    unfold conditionRelevant
    rw [inverse_eq_true h, matchesTarget_ofConditions]
    split
    · rename_i hmin
      simp [hmins c hc (by simpa using hmin)]
    · rename_i hmin
      obtain ⟨hlen, hirr⟩ := hchain ⟨c, hc, by simpa using hmin⟩
      rw [if_pos hlen, hirr]
      decide

/-- A type alone is judged as it is matched, or not judged at all. -/
theorem relevant_of_matchesTarget_of_nil (hnil : q.conditions = [])
    (hm : q.matchesTarget t = true) : q.relevant t = true := by
  cases h : q.negated with
  | false => exact relevant_of_matchesTarget h hm
  | true =>
    rw [matchesTarget_iff_of_negated h, hnil] at hm
    unfold relevant bareTypeRelevant
    rw [if_pos (by rw [hnil]; rfl), inverse_eq_true h]
    split
    · have ht : q.typeMatches t = false := by simpa using hm
      rw [typeMatches, Bool.or_eq_false_iff] at ht
      rw [ht.2]
      rfl
    · rfl

/-- A query that matches although the target meets everything that relevance looks at
matches through a part that relevance leaves out. -/
theorem leftOut_of_matchesTarget (h : q.negated = true) (hm : q.matchesTarget t = true)
    (hmet : ∀ c ∈ q.conditions, c.isDensity = false → c.holds t = true) :
    q.typeMatches t = false ∨ ∃ c ∈ q.conditions, c.isDensity = true := by
  by_contra hleft
  simp only [not_or, not_exists, not_and, Bool.not_eq_false, Bool.not_eq_true] at hleft
  obtain ⟨c, hc, hfails⟩ := (matchesTarget_iff_of_negated h).1 hm hleft.1
  rw [hmet c hc (hleft.2 c hc)] at hfails
  exact absurd hfails (by decide)

/-- Whatever matches and is irrelevant is lost. -/
theorem lost_of_relevant_eq_false (hm : q.matchesTarget t = true) (hirr : q.relevant t = false) :
    q.Lost t := by
  have hneg : q.negated = true := by
    by_contra h
    exact absurd (relevant_of_matchesTarget (by simpa using h) hm) (by simp [hirr])
  have hne : q.conditions ≠ [] := by
    intro hnil
    exact absurd (relevant_of_matchesTarget_of_nil hnil hm) (by simp [hirr])
  obtain ⟨hmins, hchain⟩ := (relevant_eq_false_iff_of_negated hneg hne).1 hirr
  have hnoMinimum : ∀ c ∈ q.conditions, c.isDensity = true → c.bound ≠ some .min := by
    intro c hc hdense hmin
    have := hmins c hc hmin
    rw [Condition.holds_eq_false hdense] at this
    exact absurd this (by decide)
  -- all conditions are minimums, or the chain decides
  by_cases hex : ∃ c ∈ q.conditions, c.bound ≠ some .min
  · obtain ⟨hlen, hch⟩ := hchain hex
    obtain ⟨hconsidered, hmet⟩ := chainRelevant_eq_false_iff.1 hch
    have hmet := hmet.2 rfl
    exact ⟨hneg, hconsidered, hmet, hnoMinimum, .inl hlen, leftOut_of_matchesTarget hneg hm hmet⟩
  · simp only [not_exists, not_and, not_not] at hex
    obtain ⟨c, hc⟩ := List.exists_mem_of_ne_nil _ hne
    have hsparse : c.isDensity = false := by
      by_contra hdense
      exact hnoMinimum c hc (by simpa using hdense) (hex c hc)
    have hmet : ∀ c ∈ q.conditions, c.isDensity = false → c.holds t = true :=
      fun c hc _ => hmins c hc (hex c hc)
    exact ⟨hneg, ⟨c, hc, hsparse⟩, hmet, hnoMinimum, .inr ⟨c, hc, hex c hc⟩,
      leftOut_of_matchesTarget hneg hm hmet⟩

/-- A lost query matches: a part that relevance leaves out fails, and `not` turns that
around. -/
theorem Lost.matchesTarget (h : q.Lost t) : q.matchesTarget t = true := by
  rw [matchesTarget_iff_of_negated h.negated]
  intro ht
  rcases h.leftOut with hf | ⟨c, hc, hdense⟩
  · rw [ht] at hf
    exact absurd hf (by decide)
  · exact ⟨c, hc, Condition.holds_eq_false hdense t⟩

theorem Lost.relevant_eq_false (h : q.Lost t) : q.relevant t = false := by
  obtain ⟨c₀, hc₀, -⟩ := h.considered
  rw [relevant_eq_false_iff_of_negated h.negated (List.ne_nil_of_mem hc₀)]
  constructor
  · intro c hc hmin
    apply h.met c hc
    by_contra hdense
    exact h.noMinimum c hc (by simpa using hdense) hmin
  · rintro ⟨c, hc, hmax⟩
    refine ⟨?_, chainRelevant_eq_false_iff.2 ⟨h.considered, iff_of_true h.met rfl⟩⟩
    rcases h.judged with hlen | ⟨c', hc', hmin⟩
    · exact hlen
    -- a minimum beside one that is none makes two
    · by_contra hlen
      have hle : q.conditions.length ≤ 1 := by omega
      obtain ⟨a, ha⟩ := List.length_eq_one_iff.1
        (Nat.le_antisymm hle (List.length_pos_of_mem hc))
      rw [ha, List.mem_singleton] at hc hc'
      rw [hc] at hmax
      rw [hc'] at hmin
      exact hmax hmin

/-- What is lost is exactly what matches and is irrelevant. -/
theorem matchesTarget_and_relevant_eq_false_iff :
    (q.matchesTarget t = true ∧ q.relevant t = false) ↔ q.Lost t := by
  constructor
  · rintro ⟨hm, hirr⟩
    exact lost_of_relevant_eq_false hm hirr
  · intro hlost
    exact ⟨hlost.matchesTarget, hlost.relevant_eq_false⟩

end Query

/-! ## Lists of queries -/

theorem matchesText_eq_ok_true_iff {text : String} {t : Target} :
    matchesText text t = .ok true ↔
      ∃ qs, parseList text = .ok qs ∧ ∃ q ∈ qs, q.matchesTarget t = true := by
  unfold matchesText
  cases parseList text with
  | error e => simp [Except.map]
  | ok qs => simp [Except.map]

theorem relevantText_eq_false_iff_of_parseList {text : String} {t : Target} {qs : List Query}
    (h : parseList text = .ok qs) :
    relevantText text t = false ↔ ∀ q ∈ qs, q.relevant t = false := by
  simp [relevantText, h]

/-- A list that matches a target is relevant for it, unless the target matches it
only through lost queries, and none of its queries is relevant. -/
theorem relevantText_of_matchesText_iff (text : String) (t : Target) :
    (matchesText text t = .ok true → relevantText text t = true) ↔
      ¬ ∃ qs, parseList text = .ok qs ∧ (∃ q ∈ qs, q.Lost t) ∧
        ∀ q ∈ qs, q.Lost t ∨ (q.matchesTarget t = false ∧ q.relevant t = false) := by
  constructor
  · rintro hkeep ⟨qs, hqs, ⟨q, hq, hlost⟩, hall⟩
    have hmatch : matchesText text t = .ok true := by
      rw [matchesText_eq_ok_true_iff]
      exact ⟨qs, hqs, q, hq, (Query.matchesTarget_and_relevant_eq_false_iff.2 hlost).1⟩
    have hirr : relevantText text t = false := by
      rw [relevantText_eq_false_iff_of_parseList hqs]
      intro q' hq'
      rcases hall q' hq' with hlost' | ⟨-, hirr⟩
      · exact (Query.matchesTarget_and_relevant_eq_false_iff.2 hlost').2
      · exact hirr
    rw [hkeep hmatch] at hirr
    exact absurd hirr (by decide)
  · intro hnone hmatch
    obtain ⟨qs, hqs, q, hq, hm⟩ := matchesText_eq_ok_true_iff.1 hmatch
    by_contra hirr
    rw [Bool.not_eq_true, relevantText_eq_false_iff_of_parseList hqs] at hirr
    apply hnone
    refine ⟨qs, hqs, ⟨q, hq, ?_⟩, ?_⟩
    · exact Query.matchesTarget_and_relevant_eq_false_iff.1 ⟨hm, hirr q hq⟩
    · intro q' hq'
      cases hm' : q'.matchesTarget t with
      | false => exact .inr ⟨rfl, hirr q' hq'⟩
      | true => exact .inl (Query.matchesTarget_and_relevant_eq_false_iff.1 ⟨hm', hirr q' hq'⟩)

/-- A screen matches what is not for print, and relevance drops it for its width. -/
theorem not_print_matches_and_is_irrelevant :
    matchesText "not print and (min-width: 500px)" (.screen 800 600) = .ok true ∧
      relevantText "not print and (min-width: 500px)" (.screen 800 600) = false := by
  have hmatch : (matchesText "not print and (min-width: 500px)" (.screen 800 600)).toOption =
      some true := by
    decide +kernel
  constructor
  · cases h : matchesText "not print and (min-width: 500px)" (.screen 800 600) with
    | error e => rw [h] at hmatch; cases hmatch
    | ok b => rw [h] at hmatch; rw [Option.some.inj hmatch]
  · decide +kernel

end CssPruning.Media
