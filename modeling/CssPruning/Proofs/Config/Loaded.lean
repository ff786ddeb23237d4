import CssPruning.Config.Text
import CssPruning.Proofs.Fallible
import CssPruning.Proofs.Media.Preludes
import CssPruning.Proofs.Pipeline.UsedFaces

/-!
# What a configuration text makes sure of

A configuration may be given in either format, by fields or by position, with fields left
out and with lengths as numbers or as texts.  All of these end in the same few steps, and
each of them keeps what is asked of a target (`Target.Sized`): a length is accepted only if
it is valid, and a field that is left out has no length or is a target of the standard.

A pipeline is accepted only if it has a target to test against.  No medium but `screen` and
`print` is judged, so a media rule with a query for all others, without any condition,
is relevant for that target, and stays (`Pipeline.usable_of_ofText`).
-/

set_option autoImplicit false

namespace CssPruning

open Config Text

/-! ## Sizes -/

/-- The length is a number of pixels that a viewport can have. -/
structure Length.Usable (l : Length) : Prop where
  finite : l.px.isFinite = true
  nonneg : (0.0 : Float) ≤ l.px

theorem Length.isValid_iff {l : Length} : isValid l.px = true ↔ l.Usable := by
  rw [isValid, Bool.and_eq_true, decide_eq_true_iff]
  exact ⟨fun h => ⟨h.1, h.2⟩, fun h => ⟨h.1, h.2⟩⟩

/-- Both sides of the target's viewport are usable. -/
structure Target.Sized (t : Target) : Prop where
  width : t.width.Usable
  height : t.height.Usable

namespace Config

variable {α β : Type} {src : Source α}

theorem usable_of_length {a : α} {l : Length} (h : length src a = .ok l) : l.Usable :=
  Length.isValid_iff.1 (isValid_ofLength src h)

theorem once_eq_ok {name : String} {before after : Option β} {value : Except Fault β}
    (h : once name before value = .ok after) : ∃ b, value = .ok b ∧ after = some b := by
  unfold once at h
  split at h
  · cases h
  · obtain ⟨b, hb, rfl⟩ := map_eq_ok h
    exact ⟨b, hb, rfl⟩

theorem skip_eq_ok {a : α} {b c : β} (h : skip src a b = .ok c) : b = c := by
  unfold skip at h
  split at h
  · cases h
  · exact Except.ok.inj h

theorem close_eq_ok {stop : Option Json.Flaw} {b c : β} (h : close stop b = .ok c) :
    b = c ∧ stop = none := by
  unfold close at h
  split at h
  · cases h
  · exact ⟨Except.ok.inj h, rfl⟩

theorem required_eq_ok {name : String} {field : Option β} {b : β}
    (h : required name field = .ok b) : field = some b := by
  unfold required at h
  split at h
  · exact congrArg some (Except.ok.inj h)
  · cases h

/-- An element of an array is there, or something stands for it. -/
theorem element_eq_ok {items : List α} {stop : Option Json.Flaw} {i : Nat}
    {value : α → Except Fault β} {missing : Except Fault β} {b : β}
    (h : element items stop i value missing = .ok b) :
    (∃ a ∈ items, value a = .ok b) ∨ missing = .ok b := by
  unfold element at h
  split at h
  · rename_i a ha
    exact .inl ⟨a, List.mem_of_getElem? ha, h⟩
  · obtain ⟨-, -, hmissing⟩ := bind_eq_ok h
    exact .inr hmissing

theorem closeFields_eq_ok {items : List α} {stop : Option Json.Flaw} {fields : Nat} {b c : β}
    (h : closeFields src items stop fields b = .ok c) : b = c := by
  unfold closeFields at h
  split at h
  · exact (close_eq_ok h).1
  · split at h
    · cases h
    · exact Except.ok.inj h

/-! ## Targets -/

/-- The lengths that have come so far are usable. -/
structure TargetDraft.Sized (d : TargetDraft) : Prop where
  width : ∀ l ∈ d.width, l.Usable
  height : ∀ l ∈ d.height, l.Usable

theorem TargetDraft.sized_add {d d' : TargetDraft} {entry : Option String × α}
    (h : d.add src entry = .ok d') (hd : d.Sized) : d'.Sized := by
  obtain ⟨name, a⟩ := entry
  unfold TargetDraft.add at h
  split at h
  · cases h
  · split at h
    · obtain ⟨medium, -, h⟩ := bind_eq_ok h
      cases h
      exact ⟨hd.width, hd.height⟩
    · split at h
      · obtain ⟨width, hwidth, h⟩ := bind_eq_ok h
        obtain ⟨l, hl, rfl⟩ := once_eq_ok hwidth
        cases h
        exact ⟨fun l' hl' => Option.some.inj hl' ▸ usable_of_length hl, hd.height⟩
      · split at h
        · obtain ⟨height, hheight, h⟩ := bind_eq_ok h
          obtain ⟨l, hl, rfl⟩ := once_eq_ok hheight
          cases h
          exact ⟨hd.width, fun l' hl' => Option.some.inj hl' ▸ usable_of_length hl⟩
        · exact skip_eq_ok h ▸ hd

theorem TargetDraft.sized_finish {d : TargetDraft} {t : Target} (h : d.finish = .ok t)
    (hd : d.Sized) : t.Sized := by
  obtain ⟨width, hwidth, h⟩ := bind_eq_ok h
  obtain ⟨height, hheight, h⟩ := bind_eq_ok h
  cases h
  exact ⟨hd.width _ (required_eq_ok hwidth), hd.height _ (required_eq_ok hheight)⟩

theorem sized_targetOfItems {items : List α} {stop : Option Json.Flaw} {t : Target}
    (h : targetOfItems src items stop = .ok t) : t.Sized := by
  have hlength : ∀ {i : Nat} {m : Mismatch} {l : Length},
      element items stop i (length src) (.error (.mismatch m)) = .ok l → l.Usable := by
    intro i m l hl
    obtain ⟨a, -, ha⟩ | hmissing := element_eq_ok hl
    · exact usable_of_length ha
    · cases hmissing
  obtain ⟨medium, -, h⟩ := bind_eq_ok h
  obtain ⟨width, hwidth, h⟩ := bind_eq_ok h
  obtain ⟨height, hheight, h⟩ := bind_eq_ok h
  cases closeFields_eq_ok h
  exact ⟨hlength hwidth, hlength hheight⟩

/-- Every target that is accepted is sized. -/
theorem sized_of_target {a : α} {t : Target} (h : target src a = .ok t) : t.Sized := by
  unfold target at h
  split at h
  · exact sized_targetOfItems h
  · obtain ⟨draft, hdraft, h⟩ := bind_eq_ok h
    obtain ⟨-, -, hfinish⟩ := bind_eq_ok h
    refine TargetDraft.sized_finish hfinish ?_
    exact foldlM_induction TargetDraft.sized_add hdraft ⟨by rintro l ⟨⟩, by rintro l ⟨⟩⟩
  · cases h
  · cases h

theorem sized_of_targets {a : α} {ts : List Target} (h : targets src a = .ok ts) :
    ∀ t ∈ ts, t.Sized := by
  unfold targets at h
  split at h
  · obtain ⟨us, hus, h⟩ := bind_eq_ok h
    obtain ⟨rfl, -⟩ := close_eq_ok h
    intro t ht
    obtain ⟨a, -, ha⟩ := exists_of_mem_mapM hus ht
    exact sized_of_target ha
  · cases h
  · cases h
  · cases h

theorem sized_standardTargets : ∀ t ∈ Pipeline.standardTargets, t.Sized := by
  have hvalid : ∀ t ∈ Pipeline.standardTargets,
      Length.isValid t.width.px = true ∧ Length.isValid t.height.px = true := by
    decide +kernel
  exact fun t ht => ⟨Length.isValid_iff.1 (hvalid t ht).1, Length.isValid_iff.1 (hvalid t ht).2⟩

/-! ## Pipelines -/

/-- The targets that have come so far are sized. -/
def PipelineDraft.Sized (d : PipelineDraft) : Prop := ∀ ts ∈ d.targets, ∀ t ∈ ts, t.Sized

theorem PipelineDraft.sized_add {d d' : PipelineDraft} {entry : Option String × α}
    (h : d.add src entry = .ok d') (hd : d.Sized) : d'.Sized := by
  obtain ⟨name, a⟩ := entry
  unfold PipelineDraft.add at h
  split at h
  · cases h
  · split at h
    · obtain ⟨targets, htargets, h⟩ := bind_eq_ok h
      obtain ⟨ts, hts, rfl⟩ := once_eq_ok htargets
      cases h
      exact fun ts' hts' => Option.some.inj hts' ▸ sized_of_targets hts
    · split at h
      · obtain ⟨keepLarger, -, h⟩ := bind_eq_ok h
        cases h
        exact hd
      · split at h
        · obtain ⟨requireRendered, -, h⟩ := bind_eq_ok h
          cases h
          exact hd
        · split at h
          · obtain ⟨stripComments, -, h⟩ := bind_eq_ok h
            cases h
            exact hd
          · exact skip_eq_ok h ▸ hd

theorem PipelineDraft.sized_finish {d : PipelineDraft} (hd : d.Sized) :
    ∀ t ∈ d.finish.targets, t.Sized := by
  unfold PipelineDraft.finish
  cases htargets : d.targets with
  | none => exact sized_standardTargets
  | some ts => exact hd ts htargets

theorem sized_pipelineOfItems {items : List α} {stop : Option Json.Flaw} {p : Pipeline}
    (h : pipelineOfItems src items stop = .ok p) : ∀ t ∈ p.targets, t.Sized := by
  obtain ⟨ts, hts, h⟩ := bind_eq_ok h
  obtain ⟨keepLarger, -, h⟩ := bind_eq_ok h
  obtain ⟨requireRendered, -, h⟩ := bind_eq_ok h
  obtain ⟨stripComments, -, h⟩ := bind_eq_ok h
  cases closeFields_eq_ok h
  obtain ⟨a, -, ha⟩ | hmissing := element_eq_ok hts
  · exact sized_of_targets ha
  · exact Except.ok.inj hmissing ▸ sized_standardTargets

/-- Every pipeline that is accepted has sized targets. -/
theorem sized_of_pipeline {a : α} {p : Pipeline} (h : pipeline src a = .ok p) :
    ∀ t ∈ p.targets, t.Sized := by
  unfold pipeline at h
  split at h
  · exact sized_pipelineOfItems h
  · obtain ⟨draft, hdraft, h⟩ := bind_eq_ok h
    obtain ⟨rfl, -⟩ := close_eq_ok h
    refine PipelineDraft.sized_finish ?_
    exact foldlM_induction PipelineDraft.sized_add hdraft (by rintro ts ⟨⟩)
  · cases h
  · cases h

/-- A JSON text is a pipeline with nothing but blanks behind it. -/
theorem readJson_eq_ok_iff {text : String} {p : Pipeline} :
    readJson text = .ok p ↔
      pipeline jsonText (Json.Reading.ofText text).1 = .ok p ∧
        (Json.Reading.ofText text).2 = false := by
  rw [readJson]
  dsimp only
  cases pipeline jsonText (Json.Reading.ofText text).1 with
  | error fault => simp
  | ok q => cases (Json.Reading.ofText text).2 <;> simp

theorem sized_of_read {format : Format} {text : String} {p : Pipeline}
    (h : read format text = .ok p) : ∀ t ∈ p.targets, t.Sized := by
  cases format with
  | toml =>
    change readToml text = .ok p at h
    unfold readToml at h
    split at h
    · exact sized_of_pipeline h
    · cases h
  | json => exact sized_of_pipeline (readJson_eq_ok_iff.1 h).1

end Config

/-! ## Media rules that stay -/

namespace Media

/-- The text can be read, and one of its queries has no condition and a type that no target is
judged by. -/
def OffersAll (text : String) : Prop :=
  ∃ queries, parseList text = .ok queries ∧ ∃ q ∈ queries, q.conditions = [] ∧
    q.mediaType ≠ "screen" ∧ q.mediaType ≠ "print"

theorem relevantText_of_offersAll {text : String} (h : OffersAll text) (t : Target) :
    relevantText text t = true := by
  obtain ⟨queries, hqueries, q, hq, hconditions, hscreen, hprint⟩ := h
  have hrelevant : q.relevant t = true := by
    simp [Query.relevant, hconditions, bareTypeRelevant, hscreen, hprint]
  rw [relevantText, hqueries]
  exact List.any_eq_true.2 ⟨q, hq, hrelevant⟩

/-- What is judged of a prelude does not hang on the blanks around it. -/
theorem canonicalPrelude_trimmed (prelude : String) :
    AtRule.canonicalPrelude (trimmed prelude) = AtRule.canonicalPrelude prelude := by
  rw [AtRule.canonicalPrelude, AtRule.canonicalPrelude, toList_trimmed, collapse, words_trim,
    collapse]

/-- What a rule is judged by is its prelude as it is written. -/
theorem eq_canonicalPrelude_of_judgedQuery {r : AtRule} {prelude query : String}
    (hprelude : r.prelude = some prelude) (h : judgedQuery r = some query) :
    query = AtRule.canonicalPrelude prelude := by
  unfold judgedQuery at h
  split at h
  · obtain ⟨text, htext, rfl⟩ := Option.map_eq_some_iff.1 h
    rw [AtRule.preludeText, hprelude, Option.map_some] at htext
    rw [← Option.some.inj (Option.filter_eq_some_iff.1 htext).1, canonicalPrelude_trimmed]
  · cases h

/-- A rule that is judged by a text that offers all is rejected only if there is nothing to test
against. -/
theorem survives_of_offersAll {targets : List Target} (hne : targets ≠ []) {r : AtRule}
    (h : ∀ query, judgedQuery r = some query → OffersAll query) : survives targets r = true := by
  unfold survives
  split
  · rename_i query hquery
    obtain ⟨t, ht⟩ := List.exists_mem_of_ne_nil targets hne
    exact List.any_eq_true.2 ⟨t, ht, relevantText_of_offersAll (h query hquery) t⟩
  · rfl

end Media

namespace Pipeline

/-- A text is accepted if what it says is usable. -/
theorem ofText_eq_ok_iff {format : Format} {text : String} {p : Pipeline} :
    ofText format text = .ok p ↔ read format text = .ok p ∧ p.isUsable = true := by
  rw [ofText]
  cases read format text with
  | error fault => simp
  | ok q =>
    have hvalidated : q.validated.mapError Refusal.unusable = .ok p ↔ q.validated = .ok p := by
      cases q.validated <;> simp [Except.mapError]
    change q.validated.mapError Refusal.unusable = .ok p ↔ _
    rw [hvalidated, validated_eq_ok_iff, Except.ok.injEq]
    constructor <;> rintro ⟨rfl, hq⟩ <;> exact ⟨rfl, hq⟩

theorem effective_ne_nil {p : Pipeline} (h : p.isUsable = true) :
    Target.effective p.targets p.keepLarger ≠ [] := by
  obtain ⟨targets, keepLarger, requireRendered, stripComments⟩ := p
  cases keepLarger with
  | false => simpa [isUsable, Target.effective] using h
  | true => simp [Target.effective]

/-- What is accepted as a configuration can be worked with.  The sizes of its targets are usable,
and there is a target to test against.  So no media rule is rejected whose prelude offers all: no
such query is among the dropped ones, no verdict on such a rule is against it, and the rule stays
in its place unless some at-rule around it is rejected. -/
theorem usable_of_ofText {format : Format} {text : String} {p : Pipeline}
    (h : ofText format text = .ok p) :
    (∀ t ∈ p.targets, t.Sized) ∧
      Target.effective p.targets p.keepLarger ≠ [] ∧
      ∀ sheet : Sheet,
        (∀ query ∈ (p.preformat sheet).report.droppedQueries, ¬ Media.OffersAll query) ∧
        (∀ v ∈ (sheet.prune (Media.survives (Target.effective p.targets p.keepLarger))).verdicts,
          ∀ prelude, v.rule.prelude = some prelude →
            Media.OffersAll (AtRule.canonicalPrelude prelude) → v.kept = true) ∧
        ∀ (place : Place) (r : AtRule) (prelude : String), sheet = place.fill r.toNode →
          r.prelude = some prelude → Media.OffersAll (AtRule.canonicalPrelude prelude) →
          (∀ outer ∈ place.around r.toNode,
            ¬ Media.Unneeded (Target.effective p.targets p.keepLarger) outer) →
          (p.preformat sheet).sheet =
            (place.left (Media.survives (Target.effective p.targets p.keepLarger))).fill
              (r.withKept (Media.survives (Target.effective p.targets p.keepLarger))).toNode := by
  obtain ⟨hread, husable⟩ := ofText_eq_ok_iff.1 h
  have hne := effective_ne_nil husable
  have hsurvives : ∀ {r : AtRule} {prelude : String}, r.prelude = some prelude →
      Media.OffersAll (AtRule.canonicalPrelude prelude) →
      Media.survives (Target.effective p.targets p.keepLarger) r = true := by
    intro r prelude hprelude hoffers
    refine Media.survives_of_offersAll hne fun query hquery => ?_
    rwa [Media.eq_canonicalPrelude_of_judgedQuery hprelude hquery]
  refine ⟨sized_of_read hread, hne, fun sheet => ⟨?dropped, ?verdicts, ?stays⟩⟩
  case dropped =>
    intro query hquery hoffers
    obtain ⟨v, hv, hquery⟩ := List.mem_filterMap.1 hquery
    obtain ⟨hv, hdropped⟩ := List.mem_filter.1 hv
    have hkept : v.kept = true := by
      rw [Media.kept_eq_of_mem_verdicts (List.mem_filter.1 hv).1]
      refine Media.survives_of_offersAll hne fun query' hquery' => ?_
      rwa [← Option.some.inj (hquery.symm.trans hquery')]
    rw [hkept] at hdropped
    cases hdropped
  case verdicts =>
    intro v hv prelude hprelude hoffers
    rw [Media.kept_eq_of_mem_verdicts hv]
    exact hsurvives hprelude hoffers
  case stays =>
    rintro place r prelude rfl hprelude hoffers haround
    have hsheet : (p.preformat (place.fill r.toNode)).sheet =
        Node.allKept (Media.survives (Target.effective p.targets p.keepLarger))
          (place.fill r.toNode) := Node.sheet_prune _ _
    rw [hsheet]
    exact Place.allKept_fill (fun outer houter => Media.survives_iff.2 (haround outer houter))
      (AtRule.kept_toNode (hsurvives hprelude hoffers))

/-- Positions in place of names, a length with a unit and one without, and a rule for all media in
a style rule. -/
theorem usable_of_ofText_byPosition :
    ∃ p, ofText .toml "match_configs = [[\"print\", \"21cm\", 900]]" = .ok p ∧
      (∀ t ∈ p.targets, t.Sized) ∧ Target.effective p.targets p.keepLarger ≠ [] ∧
      (p.preformat [.rule "a" [.atRule "media" (some "screen,\nall") none]]).sheet =
        [.rule "a" [.atRule "media" (some "screen,\nall") none]] := by
  have hok : (ofText .toml "match_configs = [[\"print\", \"21cm\", 900]]").isOk = true := by
    decide +kernel
  have hoffers : Media.OffersAll (AtRule.canonicalPrelude "screen,\nall") :=
    ⟨[⟨false, "screen", []⟩, ⟨false, "all", []⟩], by decide +kernel, _, List.mem_cons_of_mem _
      List.mem_cons_self, rfl, by decide, by decide⟩
  obtain ⟨p, hp⟩ := exists_eq_ok hok
  obtain ⟨hsized, hne, hstays⟩ := usable_of_ofText hp
  obtain ⟨-, -, hstays⟩ := hstays [.rule "a" [.atRule "media" (some "screen,\nall") none]]
  exact ⟨p, hp, hsized, hne, hstays (.inRule (.root [] []) "a" [] [])
    ⟨"media", some "screen,\nall", none⟩ _ rfl rfl hoffers (by simp [Place.around])⟩

end Pipeline

end CssPruning
