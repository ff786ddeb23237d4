import CssPruning.Media.Tally
import CssPruning.Proofs.Sheet.Judging

/-!
# The accounts of the pass over media rules

A judge that counts while it is asked has counted, at any time, the verdicts up to
then (`Tally.judge_after`).  So the report and the events of the pass can be read off
its verdicts (`pruneCounting_eq`), and the verdicts tell what has become of every
at-rule that was asked about: it is still there, or it is gone with all that was in it.

What is rejected is a media rule with a prelude, so the report lists all that is gone;
a media rule is left because it was accepted or because it has no prelude.
-/

set_option autoImplicit false

namespace CssPruning

/-- The event is a message that begins with some words. -/
def Event.begins (words : String) (e : Event) : Bool :=
  match e.fields with
  | [("message", .text text)] => words.toList.isPrefixOf text.toList
  | _ => false

namespace Media

/-! ## Counting -/

/-- An at-rule is no media rule, or one without a prelude, or one that is judged. -/
theorem judgedQuery_cases (r : AtRule) :
    (r.isMedia = false ∧ judgedQuery r = none ∧ isUnjudged r = false) ∨
    (r.isMedia = true ∧ r.preludeText = none ∧ judgedQuery r = none ∧ isUnjudged r = true) ∨
    ∃ prelude, r.isMedia = true ∧ r.preludeText = some prelude ∧
      judgedQuery r = some (AtRule.canonicalPrelude prelude) ∧ isUnjudged r = false := by
  cases hmedia : r.isMedia <;> cases hprelude : r.preludeText <;>
    simp [judgedQuery, isUnjudged, hmedia, hprelude]

namespace Tally

/-- What has been counted after some verdicts. -/
def after (targets : List Target) (keepLarger : Bool) (vs : List Verdict) : Tally :=
  { Report.ofVerdicts vs with
    events := openingEvent targets keepLarger :: vs.flatMap (verdictEvents targets) }

theorem judge_after (targets : List Target) (keepLarger : Bool) (r : AtRule) (vs : List Verdict) :
    judge targets r (after targets keepLarger vs) =
      (survives targets r, after targets keepLarger (vs ++ [⟨r, survives targets r⟩])) := by
  rcases judgedQuery_cases r with
    ⟨hmedia, hquery, hunjudged⟩ | ⟨hmedia, hprelude, hquery, hunjudged⟩ |
      ⟨prelude, hmedia, hprelude, hquery, hunjudged⟩
  · simp [judge, survives, after, Report.ofVerdicts, verdictEvents, hmedia, hquery, hunjudged]
  · simp [judge, survives, after, Report.ofVerdicts, verdictEvents, hmedia, hprelude, hquery,
      hunjudged]
  · cases hrelevant : relevantForAny (AtRule.canonicalPrelude prelude) targets <;>
      simp [judge, survives, after, Report.ofVerdicts, verdictEvents, hmedia, hprelude, hquery,
        hunjudged, hrelevant]

end Tally

/-- Counting on the way comes to the same as reading the report off the verdicts. -/
theorem pruneCounting_eq (targets : List Target) (keepLarger : Bool) (sheet : Sheet) :
    pruneCounting targets keepLarger sheet = prune targets keepLarger sheet := by
  let effective := Target.effective targets keepLarger
  have hretain : sheet.retainWith (Tally.judge effective) (.opening effective keepLarger) =
      (Node.allKept (survives effective) sheet,
        .after effective keepLarger (Node.allVerdicts (survives effective) sheet)) :=
    Node.retainAllWith_books (Tally.judge_after effective keepLarger) sheet []
  rw [pruneCounting, hretain, prune, Node.sheet_prune_eq]
  rfl

/-! ## Reading the verdicts -/

/-- What is reported of a media rule that is judged. -/
def verdictEvent (kept : Bool) (query : String) : Event :=
  .message .debug .preformatting ((if kept then "KEEP: (" else "DROP: (") ++ query ++ ")")

theorem verdictEvent_begins_keep (kept : Bool) (query : String) :
    (verdictEvent kept query).begins "KEEP: (" = kept := by
  cases kept <;> simp [verdictEvent, Event.message, Event.begins, List.isPrefixOf]

theorem verdictEvent_begins_drop (kept : Bool) (query : String) :
    (verdictEvent kept query).begins "DROP: (" = !kept := by
  cases kept <;> simp [verdictEvent, Event.message, Event.begins, List.isPrefixOf]

/-- To ask for the relevance of a query gives no message. -/
theorem relevanceForAnyEvents_begins {query : String} {targets : List Target} {e : Event}
    (h : e ∈ relevanceForAnyEvents query targets) (words : String) : e.begins words = false := by
  obtain ⟨t, -, he⟩ := List.mem_flatMap.1 h
  unfold relevanceEvents at he
  split at he
  · cases he
  · rw [List.mem_singleton.1 he]
    rfl

/-- What is reported of the media rules that are judged, one event for each. -/
def verdictMessages (vs : List Verdict) : List Event :=
  vs.filterMap fun v => (judgedQuery v.rule).map (verdictEvent v.kept)

theorem verdictMessages_cons (v : Verdict) (vs : List Verdict) :
    verdictMessages (v :: vs) =
      ((judgedQuery v.rule).map (verdictEvent v.kept)).toList ++ verdictMessages vs := by
  rw [verdictMessages, List.filterMap_cons]
  cases judgedQuery v.rule <;> rfl

/-- Among the events of a pass only these are messages. -/
theorem filter_flatMap_verdictEvents {wanted : Event → Bool}
    (h : ∀ e : Event, (∀ words, e.begins words = false) → wanted e = false)
    (targets : List Target) (vs : List Verdict) :
    (vs.flatMap (verdictEvents targets)).filter wanted = (verdictMessages vs).filter wanted := by
  induction vs with
  | nil => rfl
  | cons v vs ih =>
    rw [List.flatMap_cons, List.filter_append, ih, verdictMessages_cons, List.filter_append,
      verdictEvents]
    cases judgedQuery v.rule with
    | none => rfl
    | some query =>
      have hnone : (relevanceForAnyEvents query targets).filter wanted = [] :=
        List.filter_eq_nil_iff.2 fun e he =>
          Bool.eq_false_iff.1 (h e (relevanceForAnyEvents_begins he))
      dsimp only
      rw [List.filter_append, hnone]
      rfl

theorem filter_verdictMessages (vs : List Verdict) :
    (verdictMessages vs).filter (fun e => e.begins "KEEP: (" || e.begins "DROP: (") =
      verdictMessages vs := by
  rw [List.filter_eq_self]
  intro e he
  obtain ⟨v, -, he⟩ := List.mem_filterMap.1 he
  obtain ⟨query, -, rfl⟩ := Option.map_eq_some_iff.1 he
  rw [verdictEvent_begins_keep, verdictEvent_begins_drop, Bool.or_not_self]

theorem filter_verdictMessages_drop (vs : List Verdict) :
    (verdictMessages vs).filter (·.begins "DROP: (") =
      (Report.ofVerdicts vs).droppedQueries.map (verdictEvent false) := by
  induction vs with
  | nil => rfl
  | cons v vs ih =>
    rw [verdictMessages] at ih ⊢
    simp only [Report.ofVerdicts] at ih ⊢
    cases hquery : judgedQuery v.rule with
    | none => simpa [hquery] using ih
    | some query => cases hkept : v.kept <;> simpa [hquery, hkept, verdictEvent_begins_drop] using ih

theorem length_verdictMessages (vs : List Verdict) :
    (verdictMessages vs).length = (Report.ofVerdicts vs).evaluated := by
  rw [verdictMessages, List.length_filterMap_eq_countP, Report.ofVerdicts,
    ← List.countP_eq_length_filter]
  simp only [Option.isSome_map]

/-! ## The report -/

theorem evaluated_ofVerdicts (vs : List Verdict) :
    (Report.ofVerdicts vs).evaluated =
      (Report.ofVerdicts vs).kept + (Report.ofVerdicts vs).dropped := by
  simp only [Report.ofVerdicts]
  generalize vs.filter (fun v => (judgedQuery v.rule).isSome) = judged
  rw [← List.countP_eq_length_filter, List.length_eq_countP_add_countP fun v => v.kept]
  simp

theorem dropped_ofVerdicts (vs : List Verdict) :
    (Report.ofVerdicts vs).dropped = (Report.ofVerdicts vs).droppedQueries.length := by
  induction vs with
  | nil => rfl
  | cons v vs ih =>
    simp only [Report.ofVerdicts] at ih ⊢
    cases hquery : judgedQuery v.rule with
    | none => simpa [hquery] using ih
    | some query => cases hkept : v.kept <;> simpa [hquery, hkept] using ih

section

variable {targets : List Target} {vs : List Verdict}
  (h : ∀ v ∈ vs, v.kept = survives targets v.rule)

include h in
/-- What is rejected has been judged, so it is on the list of the report. -/
theorem map_some_droppedQueries :
    (Report.ofVerdicts vs).droppedQueries.map some =
      (vs.filter fun v => !v.kept).map fun v => v.rule.preludeText.map AtRule.canonicalPrelude := by
  induction vs with
  | nil => rfl
  | cons v vs ih =>
    rw [List.forall_mem_cons] at h
    have ih := ih h.2
    simp only [Report.ofVerdicts] at ih ⊢
    rcases judgedQuery_cases v.rule with
      ⟨-, hquery, -⟩ | ⟨-, -, hquery, -⟩ | ⟨prelude, -, hprelude, hquery, -⟩
    · have hkept : v.kept = true := by simp [h.1, survives, hquery]
      simpa [hquery, hkept] using ih
    · have hkept : v.kept = true := by simp [h.1, survives, hquery]
      simpa [hquery, hkept] using ih
    · cases hkept : v.kept <;> simpa [hquery, hprelude, hkept] using ih

include h in
/-- A media rule stays if it is judged and accepted, or not judged. -/
theorem countP_isMedia_kept :
    (vs.filter (·.kept)).countP (fun v => v.rule.isMedia) =
      (Report.ofVerdicts vs).kept + (Report.ofVerdicts vs).skippedEmpty := by
  induction vs with
  | nil => rfl
  | cons v vs ih =>
    rw [List.forall_mem_cons] at h
    have ih := ih h.2
    simp only [Report.ofVerdicts] at ih ⊢
    rcases judgedQuery_cases v.rule with
      ⟨hmedia, hquery, hunjudged⟩ | ⟨hmedia, -, hquery, hunjudged⟩ |
        ⟨prelude, hmedia, -, hquery, hunjudged⟩
    · have hkept : v.kept = true := by simp [h.1, survives, hquery]
      simpa [hquery, hmedia, hunjudged, hkept] using ih
    · have hkept : v.kept = true := by simp [h.1, survives, hquery]
      simp [hquery, hmedia, hunjudged, hkept, ih, Nat.add_assoc]
    · cases hkept : v.kept
      · simpa [hquery, hmedia, hunjudged, hkept] using ih
      · simp [hquery, hmedia, hunjudged, hkept, ih, Nat.add_right_comm]

end

/-! ## The accounts -/

/-- The report and the events of a pass agree with its judgements, and with what it
leaves. -/
structure Accounts (before : Sheet) (o : Outcome) (js : List Judgement) : Prop where
  judged : before.Judged js o.sheet
  evaluated : o.report.evaluated = o.report.kept + o.report.dropped
  dropped : o.report.dropped = o.report.droppedQueries.length
  /-- for each at-rule that is gone, the list has its canonical prelude -/
  droppedQueries : o.report.droppedQueries.map some =
    (js.filter fun j => !j.kept).map fun j => j.rule.preludeText.map AtRule.canonicalPrelude
  left : (Node.allAtRules o.sheet).countP AtRule.isMedia =
    o.report.kept + o.report.skippedEmpty
  /-- the messages of the pass are those about the rules that are judged -/
  messages : o.events.filter (fun e => e.begins "KEEP: (" || e.begins "DROP: (") =
    verdictMessages (js.map (·.toVerdict))
  length_messages : (verdictMessages (js.map (·.toVerdict))).length = o.report.evaluated
  dropMessages : o.events.filter (·.begins "DROP: (") = o.report.droppedQueries.map fun query =>
    .message .debug .preformatting ("DROP: (" ++ query ++ ")")

/-- Every pass has its accounts. -/
theorem exists_accounts (targets : List Target) (keepLarger : Bool) (sheet : Sheet) :
    ∃ js, Accounts sheet (prune targets keepLarger sheet) js := by
  obtain ⟨js, hjudged, hjs⟩ := sheet.exists_judged_allKept
    (survives (Target.effective targets keepLarger))
  have hkept : ∀ v ∈ js.map (·.toVerdict),
      v.kept = survives (Target.effective targets keepLarger) v.rule := by
    rw [hjs]
    exact fun v hv => Node.kept_of_mem_allVerdicts hv
  -- what opens the pass is no message
  have hfilter (wanted : Event → Bool)
      (hwanted : ∀ e : Event, (∀ words, e.begins words = false) → wanted e = false) :
      (prune targets keepLarger sheet).events.filter wanted =
        (verdictMessages (js.map (·.toVerdict))).filter wanted := by
    rw [hjs, prune, Node.sheet_prune_eq]
    exact (List.filter_cons_of_neg (Bool.eq_false_iff.1 (hwanted _ fun words => rfl))).trans
      (filter_flatMap_verdictEvents hwanted _ _)
  have hreport : (prune targets keepLarger sheet).report =
      .ofVerdicts (js.map (·.toVerdict)) := by
    rw [hjs, prune, Node.sheet_prune_eq]
  have hsheet : (prune targets keepLarger sheet).sheet =
      Node.allKept (survives (Target.effective targets keepLarger)) sheet :=
    Node.sheet_prune _ sheet
  refine ⟨js, ?_⟩
  constructor
  case judged => exact hsheet ▸ hjudged
  case evaluated => rw [hreport, evaluated_ofVerdicts]
  case dropped => rw [hreport, dropped_ofVerdicts]
  case droppedQueries =>
    rw [hreport, map_some_droppedQueries hkept, List.filter_map, List.map_map]
    rfl
  case left =>
    rw [hsheet, hreport, ← countP_isMedia_kept hkept, Node.allAtRules_allKept, ← hjs,
      List.countP_map]
    rfl
  case messages =>
    exact (hfilter _ fun e he => by rw [he, he, Bool.or_self]).trans (filter_verdictMessages _)
  case length_messages => rw [hreport, length_verdictMessages]
  case dropMessages =>
    rw [hfilter _ fun e he => he _, hreport]
    exact filter_verdictMessages_drop _

end Media

end CssPruning
