import CssPruning.Font.Tally
import CssPruning.Proofs.Sheet.Judging

/-!
# The accounts of the pass over font faces

As with media rules, a judge that counts while it is asked has counted the verdicts up
to then (`Tally.judge_after`), and so the report of the pass can be read off its
verdicts (`pruneFacesCounting_eq`).  What is rejected is a face, for one of two reasons
that exclude each other; a face that is left has been accepted.
-/

set_option autoImplicit false

namespace CssPruning.Font

/-! ## Counting -/

namespace Tally

/-- What has been counted after some verdicts. -/
def after (used : NameSet) (vars : Variables) (vs : List Verdict) : Tally :=
  { FaceReport.ofVerdicts used vars vs with
    events := vs.flatMap fun v => faceEvents used vars v.rule }

theorem judge_after (used : NameSet) (vars : Variables) (r : AtRule) (vs : List Verdict) :
    judge used vars r (after used vars vs) =
      (survives used vars r, after used vars (vs ++ [⟨r, survives used vars r⟩])) := by
  cases hface : r.isFontFace with
  | false => simp [judge, survives, after, FaceReport.ofVerdicts, faceEvents, hface]
  | true =>
    cases hused : isUsed used vars r with
    | false =>
      have hreason : dropReason used vars r = some .unused := by simp [dropReason, hused]
      simp [judge, survives, after, FaceReport.ofVerdicts, faceEvents, droppedFace, hface, hused,
        hreason]
    | true =>
      cases hsource : hasSource r with
      | false =>
        have hreason : dropReason used vars r = some .noSource := by
          simp [dropReason, hused, hsource]
        simp [judge, survives, after, FaceReport.ofVerdicts, faceEvents, droppedFace, hface, hused,
          hsource, hreason]
      | true =>
        have hreason : dropReason used vars r = none := by simp [dropReason, hused, hsource]
        simp [judge, survives, after, FaceReport.ofVerdicts, faceEvents, droppedFace, hface, hused,
          hsource, hreason]

end Tally

/-- Counting on the way comes to the same as reading the report off the verdicts. -/
theorem pruneFacesCounting_eq (used : NameSet) (vars : Variables) (sheet : Sheet) :
    pruneFacesCounting used vars sheet = pruneFaces used vars sheet := by
  have hretain : sheet.retainWith (Tally.judge used vars) .opening =
      (Node.allKept (survives used vars) sheet,
        .after used vars (Node.allVerdicts (survives used vars) sheet)) :=
    Node.retainAllWith_books (Tally.judge_after used vars) sheet []
  rw [pruneFacesCounting, hretain, pruneFaces, Node.sheet_prune_eq]
  rfl

/-! ## The report -/

section

variable {used : NameSet} {vars : Variables}

/-- An at-rule is no face, or a face that is kept, or one that is not. -/
theorem survives_cases (used : NameSet) (vars : Variables) (r : AtRule) :
    (r.isFontFace = false ∧ survives used vars r = true) ∨
    (r.isFontFace = true ∧ dropReason used vars r = none ∧ survives used vars r = true) ∨
    ∃ reason, r.isFontFace = true ∧ dropReason used vars r = some reason ∧
      survives used vars r = false := by
  cases hface : r.isFontFace <;> cases hreason : dropReason used vars r <;>
    simp [survives, hface, hreason]

theorem length_dropped_ofVerdicts (vs : List Verdict) :
    (FaceReport.ofVerdicts used vars vs).dropped.length =
      (FaceReport.ofVerdicts used vars vs).droppedUnused +
        (FaceReport.ofVerdicts used vars vs).droppedNoSource := by
  simp only [FaceReport.ofVerdicts]
  rw [List.length_eq_countP_add_countP fun d => d.reason == .unused]
  refine congrArg _ (List.countP_congr fun d _ => ?_)
  obtain ⟨family, reason⟩ := d
  cases reason <;> simp

theorem total_ofVerdicts (vs : List Verdict) :
    (FaceReport.ofVerdicts used vars vs).total = (FaceReport.ofVerdicts used vars vs).kept +
      (FaceReport.ofVerdicts used vars vs).dropped.length := by
  induction vs with
  | nil => rfl
  | cons v vs ih =>
    simp only [FaceReport.ofVerdicts] at ih ⊢
    rcases survives_cases used vars v.rule with
      ⟨hface, -⟩ | ⟨hface, hreason, -⟩ | ⟨reason, hface, hreason, -⟩
    · simpa [hface] using ih
    · simp [hface, droppedFace, hreason, ih, Nat.add_right_comm]
    · simp [hface, droppedFace, hreason, ih, Nat.add_assoc]

variable {vs : List Verdict} (h : ∀ v ∈ vs, v.kept = survives used vars v.rule)

include h in
/-- What is rejected is a face, and on the list of the report. -/
theorem map_some_dropped :
    (FaceReport.ofVerdicts used vars vs).dropped.map some =
      (vs.filter fun v => !v.kept).map fun v => droppedFace used vars v.rule := by
  induction vs with
  | nil => rfl
  | cons v vs ih =>
    rw [List.forall_mem_cons] at h
    have ih := ih h.2
    simp only [FaceReport.ofVerdicts] at ih ⊢
    rcases survives_cases used vars v.rule with
      ⟨hface, hkept⟩ | ⟨hface, hreason, hkept⟩ | ⟨reason, hface, hreason, hkept⟩ <;>
      rw [← h.1] at hkept
    · simpa [hface, hkept] using ih
    · simpa [hface, hkept, droppedFace, hreason] using ih
    · simpa [hface, hkept, droppedFace, hreason] using ih

include h in
/-- A face stays if it is accepted. -/
theorem countP_isFontFace_kept :
    (vs.filter (·.kept)).countP (fun v => v.rule.isFontFace) =
      (FaceReport.ofVerdicts used vars vs).kept := by
  induction vs with
  | nil => rfl
  | cons v vs ih =>
    rw [List.forall_mem_cons] at h
    have ih := ih h.2
    simp only [FaceReport.ofVerdicts] at ih ⊢
    rcases survives_cases used vars v.rule with
      ⟨hface, hkept⟩ | ⟨hface, hreason, hkept⟩ | ⟨reason, hface, hreason, hkept⟩ <;>
      rw [← h.1] at hkept
    · simpa [hface, hkept] using ih
    · simpa [hface, hkept, hreason] using ih
    · simpa [hface, hkept, hreason] using ih

end

/-! ## The accounts -/

/-- The report of a pass agrees with its judgements, and with what it leaves. -/
structure Accounts (used : NameSet) (vars : Variables) (before : Sheet) (o : FaceOutcome)
    (js : List Judgement) : Prop where
  judged : before.Judged js o.sheet
  total : o.report.total = o.report.kept + o.report.droppedUnused + o.report.droppedNoSource
  length_dropped : o.report.dropped.length = o.report.droppedUnused + o.report.droppedNoSource
  /-- for each at-rule that is gone, the list has its entry -/
  dropped : o.report.dropped.map some =
    (js.filter fun j => !j.kept).map fun j => droppedFace used vars j.rule
  left : (Node.allAtRules o.sheet).countP AtRule.isFontFace = o.report.kept

/-- The judgements of a pass are those of its test, and the report is read off them. -/
theorem exists_judgements (used : NameSet) (vars : Variables) (sheet : Sheet) :
    ∃ js, sheet.Judged js (pruneFaces used vars sheet).sheet ∧
      js.map (·.toVerdict) = Node.allVerdicts (survives used vars) sheet ∧
      (∀ v ∈ js.map (·.toVerdict), v.kept = survives used vars v.rule) ∧
      (pruneFaces used vars sheet).report = .ofVerdicts used vars (js.map (·.toVerdict)) := by
  obtain ⟨js, hjudged, hjs⟩ := sheet.exists_judged_allKept (survives used vars)
  refine ⟨js, ?_, hjs, ?_, ?_⟩
  · rw [pruneFaces, Node.sheet_prune]
    exact hjudged
  · rw [hjs]
    exact fun v hv => Node.kept_of_mem_allVerdicts hv
  · rw [hjs, pruneFaces, Node.sheet_prune_eq]

/-- Every pass has its accounts. -/
theorem exists_accounts (used : NameSet) (vars : Variables) (sheet : Sheet) :
    ∃ js, Accounts used vars sheet (pruneFaces used vars sheet) js := by
  obtain ⟨js, hjudged, hjs, hkept, hreport⟩ := exists_judgements used vars sheet
  have hsheet : (pruneFaces used vars sheet).sheet = Node.allKept (survives used vars) sheet :=
    Node.sheet_prune _ sheet
  refine ⟨js, ?_⟩
  constructor
  case judged => exact hjudged
  case total => rw [hreport, total_ofVerdicts, length_dropped_ofVerdicts, Nat.add_assoc]
  case length_dropped => rw [hreport, length_dropped_ofVerdicts]
  case dropped =>
    rw [hreport, map_some_dropped hkept, List.filter_map, List.map_map]
    rfl
  case left =>
    rw [hsheet, hreport, ← countP_isFontFace_kept hkept, Node.allAtRules_allKept, ← hjs,
      List.countP_map]
    rfl

end CssPruning.Font
