import CssPruning.Proofs.Media.KeepBias

/-!
# Conditions that do not count

No target can say how dense its pixels are, so a condition on their density says
nothing about a target.  For a query without `not` that is judged by its conditions
(`Query.Decisive`) relevance bears that out: it can be told from the other conditions
alone (`Query.Decisive.relevant_iff`), and so conditions on the density may be put in
anywhere (`Query.relevant_padded`).

A single condition that is no minimum is the one that has to be kept apart: a query
with nothing else is kept for every target, and any condition beside it makes it a
chain, which can fail.
-/

set_option autoImplicit false

namespace CssPruning.Media

/-- The second list is the first with conditions on the density of pixels put in. -/
inductive Padded : List Condition → List Condition → Prop where
  | nil : Padded [] []
  | keep {cs ds : List Condition} (c : Condition) : Padded cs ds → Padded (c :: cs) (c :: ds)
  | pad {cs ds : List Condition} {d : Condition} :
      d.isDensity = true → Padded cs ds → Padded cs (d :: ds)

namespace Padded

variable {cs ds : List Condition}

theorem filter_eq (h : Padded cs ds) :
    (ds.filter fun c => !c.isDensity) = cs.filter fun c => !c.isDensity := by
  induction h with
  | nil => rfl
  | keep c _ ih => rw [List.filter_cons, List.filter_cons, ih]
  | pad hd _ ih => rw [List.filter_cons_of_neg (by simp [hd]), ih]

theorem mem_iff (h : Padded cs ds) {c : Condition} (hc : c.isDensity = false) :
    c ∈ ds ↔ c ∈ cs := by
  have hmem : ∀ row : List Condition, c ∈ row.filter (fun c => !c.isDensity) ↔ c ∈ row :=
    fun row => by simp [List.mem_filter, hc]
  rw [← hmem ds, ← hmem cs, h.filter_eq]

theorem sublist (h : Padded cs ds) : cs.Sublist ds := by
  induction h with
  | nil => exact .slnil
  | keep c _ ih => exact ih.cons_cons c
  | pad _ _ ih => exact ih.cons _

end Padded

namespace Query

variable {q : Query} {t : Target}

/-- The query asks for what it says, and is judged by its conditions: by one at least
that is not about the density of pixels, and by more than one, or by a minimum. -/
structure Decisive (q : Query) : Prop where
  negated : q.negated = false
  typed : q.mediaType ≠ "not"
  considered : ∃ c ∈ q.conditions, c.isDensity = false
  judged : 1 < q.conditions.length ∨ ∃ c, q.conditions = [c] ∧ c.bound = some .min

namespace Decisive

theorem inverse_eq_false (h : q.Decisive) : q.inverse = false := by
  rw [inverse, h.negated, Bool.false_or, beq_eq_false_iff_ne]
  exact h.typed

/-- A condition that is no minimum hands the question to the chain. -/
theorem conditionRelevant_eq_chainRelevant (h : q.Decisive) {c : Condition}
    (hc : c ∈ q.conditions) (hmin : c.bound ≠ some .min) :
    q.conditionRelevant t c = chainRelevant q.conditions false t := by
  have hlen : 1 < q.conditions.length := by
    rcases h.judged with hlen | ⟨d, hd, hbound⟩
    · exact hlen
    · rw [hd, List.mem_singleton] at hc
      exact absurd (hc ▸ hbound) hmin
  rw [conditionRelevant, if_neg (by simpa using hmin), if_pos hlen, h.inverse_eq_false]

theorem conditionRelevant_eq_holds (h : q.Decisive) {c : Condition} (hmin : c.bound = some .min) :
    q.conditionRelevant t c = c.holds t := by
  rw [conditionRelevant, if_pos (by simpa using hmin), h.inverse_eq_false,
    matchesTarget_ofConditions, Bool.bne_false, List.all_cons, List.all_nil, Bool.and_true]

theorem chainRelevant_iff (h : q.Decisive) :
    chainRelevant q.conditions false t = true ↔
      ∀ c ∈ q.conditions, c.isDensity = false → c.holds t = true := by
  rw [← not_iff_not, Bool.not_eq_true, chainRelevant_eq_false_iff]
  simp [h.considered]

/-- The query is relevant if and only if the target meets one of its minimums, or all
of its conditions, those on the density of pixels left out. -/
theorem relevant_iff (h : q.Decisive) :
    q.relevant t = true ↔
      (∃ c ∈ q.conditions, c.isDensity = false ∧ c.bound = some .min ∧ c.holds t = true) ∨
        ∀ c ∈ q.conditions, c.isDensity = false → c.holds t = true := by
  obtain ⟨c₀, hc₀, hsparse⟩ := h.considered
  have hne : q.conditions.isEmpty = false := by
    simpa using List.ne_nil_of_mem hc₀
  rw [relevant, if_neg (by simp [hne]), List.any_eq_true]
  constructor
  · rintro ⟨c, hc, hrel⟩
    by_cases hmin : c.bound = some .min
    · rw [h.conditionRelevant_eq_holds hmin] at hrel
      refine .inl ⟨c, hc, ?_, hmin, hrel⟩
      by_contra hdense
      rw [Condition.holds_eq_false (by simpa using hdense)] at hrel
      cases hrel
    · rw [h.conditionRelevant_eq_chainRelevant hc hmin] at hrel
      exact .inr (h.chainRelevant_iff.1 hrel)
  · rintro (⟨c, hc, -, hmin, hholds⟩ | hall)
    · exact ⟨c, hc, (h.conditionRelevant_eq_holds hmin).trans hholds⟩
    -- if nothing but minimums is there, one of them is met
    · by_cases hmin : c₀.bound = some .min
      · exact ⟨c₀, hc₀, (h.conditionRelevant_eq_holds hmin).trans (hall c₀ hc₀ hsparse)⟩
      · refine ⟨c₀, hc₀, ?_⟩
        rw [h.conditionRelevant_eq_chainRelevant hc₀ hmin, h.chainRelevant_iff]
        exact hall

/-- A query stays decisive with more conditions on the density of pixels. -/
theorem padded {cs : List Condition} (h : q.Decisive) (hp : Padded q.conditions cs) :
    Decisive { q with conditions := cs } where
  negated := h.negated
  typed := h.typed
  considered := by
    obtain ⟨c, hc, hsparse⟩ := h.considered
    exact ⟨c, (hp.mem_iff hsparse).2 hc, hsparse⟩
  judged := by
    have hle := hp.sublist.length_le
    rcases h.judged with hlen | ⟨c, hc, hmin⟩
    · exact .inl (Nat.lt_of_lt_of_le hlen hle)
    · rw [hc] at hp hle
      by_cases hlen : 1 < cs.length
      · exact .inl hlen
      -- nothing was put in
      · have heq : [c] = cs := hp.sublist.eq_of_length_le (by simpa using hlen)
        exact .inr ⟨c, heq.symm, hmin⟩

end Decisive

/-- Conditions on the density of pixels, put in anywhere, do not change what a query is
relevant for. -/
theorem relevant_padded {cs : List Condition} (h : q.Decisive) (hp : Padded q.conditions cs)
    (t : Target) : relevant { q with conditions := cs } t = q.relevant t := by
  rw [Bool.eq_iff_iff, (h.padded hp).relevant_iff, h.relevant_iff]
  constructor
  · rintro (⟨c, hc, hsparse, hmet⟩ | hall)
    · exact .inl ⟨c, (hp.mem_iff hsparse).1 hc, hsparse, hmet⟩
    · exact .inr fun c hc hsparse => hall c ((hp.mem_iff hsparse).2 hc) hsparse
  · rintro (⟨c, hc, hsparse, hmet⟩ | hall)
    · exact .inl ⟨c, (hp.mem_iff hsparse).2 hc, hsparse, hmet⟩
    · exact .inr fun c hc hsparse => hall c ((hp.mem_iff hsparse).1 hc) hsparse

/-- A minimal width, alone and between two conditions on the density of pixels. -/
theorem relevant_padded_width :
    relevant ⟨false, "screen", [⟨none, "-webkit-device-pixel-ratio", none⟩,
        ⟨some .min, "width", some "500px"⟩, ⟨some .min, "device-pixel-ratio", some "2"⟩]⟩
        (.screen 800 600) =
      relevant ⟨false, "screen", [⟨some .min, "width", some "500px"⟩]⟩ (.screen 800 600) := by
  refine relevant_padded
    (q := ⟨false, "screen", [⟨some .min, "width", some "500px"⟩]⟩) ⟨rfl, by decide, ?_, ?_⟩ ?_ _
  · exact ⟨_, List.mem_singleton_self _, by decide +kernel⟩
  · exact .inr ⟨_, rfl, rfl⟩
  · exact .pad (by decide +kernel) (.keep _ (.pad (by decide +kernel) .nil))

end Query

end CssPruning.Media
