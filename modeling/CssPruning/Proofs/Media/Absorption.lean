import CssPruning.Proofs.Sheet.Survival
import CssPruning.Proofs.Sheet.Verdicts

/-!
# One pass over media rules after another

A rule that some of few targets needs is needed by one of more targets.  So a pass
for more targets takes away nothing that a pass for fewer would have left, and
leaves no trace in what the latter makes of the sheet.

After a pass for the same targets there is nothing left to drop, and the report
says so: what is judged again is what was kept (`Report.again`).
-/

set_option autoImplicit false

namespace CssPruning.Media

/-! ## More targets keep more -/

/-- What survives for some targets survives for more of them. -/
theorem survives_mono {targets targets' : List Target} {r : AtRule}
    (h : ∀ t ∈ targets, t ∈ targets') (hr : survives targets r = true) :
    survives targets' r = true := by
  rw [survives_iff] at hr ⊢
  rintro ⟨hmedia, prelude, hprelude, hnone⟩
  exact hr ⟨hmedia, prelude, hprelude, fun t ht => hnone t (h t ht)⟩

/-- A pass for some targets after a pass for more of them is one for the former. -/
theorem allKept_allKept_survives {targets targets' : List Target}
    (h : ∀ t ∈ targets, t ∈ targets') (ns : List Node) :
    Node.allKept (survives targets) (Node.allKept (survives targets') ns) =
      Node.allKept (survives targets) ns :=
  Node.allKept_allKept_of_imp (survives_withKept _ _) (fun _ => survives_mono h) ns

/-! ## The report of the second pass -/

/-- The report of a pass for which another, with that report, has left nothing to
drop. -/
def Report.again (r : Report) : Report :=
  { droppedQueries := []
    evaluated := r.kept
    skippedEmpty := r.skippedEmpty
    kept := r.kept
    dropped := 0 }

/-- A media rule without a prelude survives for any targets. -/
theorem survives_of_isUnjudged {r : AtRule} (h : isUnjudged r = true) (targets : List Target) :
    survives targets r = true := by
  rw [isUnjudged, Bool.and_eq_true, Option.isNone_iff_eq_none] at h
  rw [survives_iff]
  rintro ⟨-, prelude, hprelude, -⟩
  rw [h.2] at hprelude
  cases hprelude

/-- What a pass is asked about once more is what it has kept. -/
theorem ofVerdicts_map_again {targets : List Target} {vs : List Verdict}
    (h : ∀ v ∈ vs, v.kept = survives targets v.rule) (keep : AtRule → Bool) :
    Report.ofVerdicts ((vs.filter (·.kept)).map (Verdict.again keep)) =
      (Report.ofVerdicts vs).again := by
  have hjudged : ((vs.filter (·.kept)).map (Verdict.again keep)).filter
        (fun v => (judgedQuery v.rule).isSome) =
      ((vs.filter fun v => (judgedQuery v.rule).isSome).filter (·.kept)).map
        (Verdict.again keep) := by
    rw [List.filter_map, List.filter_filter, List.filter_filter]
    -- neither the name nor the prelude changes with what is left in the block
    have hcomm : (fun v : Verdict => (judgedQuery (v.again keep).rule).isSome && v.kept) =
        fun v => v.kept && (judgedQuery v.rule).isSome := by
      funext v
      exact Bool.and_comm _ _
    exact congrArg (fun p => (vs.filter p).map (Verdict.again keep)) hcomm
  have hunjudged : ((vs.filter (·.kept)).map (Verdict.again keep)).countP
        (fun v => isUnjudged v.rule) = vs.countP fun v => isUnjudged v.rule := by
    rw [List.countP_map, List.countP_filter]
    apply List.countP_congr
    intro v hv
    rw [Bool.and_eq_true, h v hv]
    exact ⟨And.left, fun hr => ⟨hr, survives_of_isUnjudged hr targets⟩⟩
  have hdropped : ∀ ws : List Verdict,
      (ws.map (Verdict.again keep)).filter (fun v => !v.kept) = [] := by
    simp [Verdict.again]
  have hkept : ∀ ws : List Verdict,
      (ws.map (Verdict.again keep)).countP (fun v => v.kept) = ws.length := by
    simp [Verdict.again, List.countP_eq_length]
  simp only [Report.ofVerdicts, Report.again]
  rw [hjudged, hunjudged, hdropped, hkept, List.length_map, ← List.countP_eq_length_filter]
  rfl

/-! ## Passes in a row -/

/-- A pass for more targets, be it with the larger screen or without, leaves no
trace behind a pass for fewer.  The same pass once more drops nothing, changes
nothing, and judges what it has kept. -/
theorem prune_prune {targets targets' : List Target} {keepLarger keepLarger' : Bool}
    (h : ∀ t ∈ Target.effective targets keepLarger, t ∈ Target.effective targets' keepLarger')
    (sheet : Sheet) :
    (prune targets keepLarger (prune targets' keepLarger' sheet).sheet).sheet =
        (prune targets keepLarger sheet).sheet ∧
      (prune targets keepLarger (prune targets keepLarger sheet).sheet).sheet =
        (prune targets keepLarger sheet).sheet ∧
      (prune targets keepLarger (prune targets keepLarger sheet).sheet).report =
        (prune targets keepLarger sheet).report.again := by
  simp only [prune, Node.sheet_prune_eq]
  refine ⟨allKept_allKept_survives h sheet, allKept_allKept_survives (fun _ ht => ht) sheet, ?_⟩
  rw [Node.allVerdicts_allKept (survives_withKept _ _)]
  exact ofVerdicts_map_again (fun _ => Node.kept_of_mem_allVerdicts) _

/-- A media rule for print inside of one for screens, and one without a prelude. -/
def printInScreen : Sheet :=
  [.atRule "media" (some "screen") (some [.atRule "media" (some "print") (some [])]),
    .atRule "media" none (some [])]

theorem prune_prune_printInScreen :
    (∀ t ∈ Target.effective [.screen 800 600] false,
        t ∈ Target.effective [⟨.print, ⟨800⟩, ⟨600⟩⟩, .screen 800 600] true) ∧
      (prune [.screen 800 600] false
        (prune [⟨.print, ⟨800⟩, ⟨600⟩⟩, .screen 800 600] true printInScreen).sheet).sheet =
          (prune [.screen 800 600] false printInScreen).sheet := by
  have hmore : ∀ t ∈ Target.effective [.screen 800 600] false,
      t ∈ Target.effective [⟨.print, ⟨800⟩, ⟨600⟩⟩, .screen 800 600] true := by
    intro t ht
    rw [List.mem_singleton.1 ht]
    exact List.mem_cons_of_mem _ List.mem_cons_self
  exact ⟨hmore, (prune_prune hmore printInScreen).1⟩

end CssPruning.Media
